/-
  The consumer table against the list of its tenants.

  1. **Calls** — the requests of the clients, and the owners of handles who drop them.

  2. **The book** — what a bystander writes down who sees only the calls and the answers: the
     cursors in use, and those that have been given up.  The book knows nothing of places and
     tickets.

  3. **The invariant** (`Booked.Kept`) — the cursors in use are those that the table has a consumer
     for; the ticket of a place counts the cursors given up there, and a cursor that was given up
     bears one of the earlier tickets.  One step lemma per kind of call, and `kept_booked` for all
     runs.

  4. **The result** (`tenancy_in_order`) — as long as no ticket has come round, the book and the
     table tell the same: who is in, where the next one goes, and that nobody comes back.
-/
import IambicKeyer.Proofs.Stream.Journal
import Mathlib.Data.List.FinRange
import Mathlib.Data.List.Nodup

namespace IambicKeyer

namespace EventStream

variable {k C : Nat}

/-! ## Calls -/

/-- What can be done to a stream.  A handle is opened by registering, read by polling, and given up
    by dropping it. -/
inductive Call where
  | ask (r : Request)
  | drop (c : Cursor)
  deriving DecidableEq

/-- Answers a call. -/
def answer (s : EventStream k C) : Call → Reply × EventStream k C
  | .ask r => s.serve r
  | .drop c => (.done, (s.close c).2)

/-! ## The book -/

/-- The cursors in use, and those that were. -/
structure Book where
  live : List Cursor := []
  ended : List Cursor := []

namespace Book

/-- A cursor in use is given up. -/
def giveUp (b : Book) (c : Cursor) : Book :=
  if c ∈ b.live then ⟨b.live.erase c, c :: b.ended⟩ else b

/-- Enters a call and its answer. -/
def enter (b : Book) : Call → Reply → Book
  | .ask .register, .granted c => { b with live := c :: b.live }
  | .ask (.unregister c), _ => b.giveUp c
  | .drop c, _ => b.giveUp c
  | _, _ => b

/-- How many cursors have been given up at a place. -/
def endings (b : Book) (i : Nat) : Nat := b.ended.countP (·.slot == i)

theorem giveUp_of_mem {b : Book} {c : Cursor} (h : c ∈ b.live) :
    b.giveUp c = ⟨b.live.erase c, c :: b.ended⟩ := if_pos h

theorem giveUp_of_not_mem {b : Book} {c : Cursor} (h : c ∉ b.live) : b.giveUp c = b := if_neg h

theorem endings_giveUp {b : Book} {c : Cursor} (h : c ∈ b.live) (i : Nat) :
    (b.giveUp c).endings i = b.endings i + if c.slot = i then 1 else 0 := by
  rw [giveUp_of_mem h]
  show List.countP _ (c :: b.ended) = List.countP _ b.ended + _
  rw [List.countP_cons]
  simp only [beq_iff_eq]

/-- What was given up is not taken back. -/
theorem ended_enter (b : Book) (call : Call) (r : Reply) : b.ended ⊆ (b.enter call r).ended := by
  have hgive : ∀ c, b.ended ⊆ (b.giveUp c).ended := by
    intro c
    by_cases hc : c ∈ b.live
    · -- the cursor joins those that were given up
      rw [giveUp_of_mem hc]
      exact List.subset_cons_self _ _
    · -- nothing is entered
      rw [giveUp_of_not_mem hc]
      exact List.Subset.refl _
  cases call with
  | drop c => exact hgive c
  | ask q =>
    cases q with
    | push e => exact List.Subset.refl _
    | poll c => exact List.Subset.refl _
    | unregister c => exact hgive c
    | register => cases r <;> exact List.Subset.refl _

end Book

/-- A stream and the book kept of it. -/
structure Booked (k C : Nat) where
  stream : EventStream k C := empty
  book : Book := {}

/-- Answers a call and enters it. -/
def Booked.call (t : Booked k C) (c : Call) : Booked k C :=
  ⟨(t.stream.answer c).2, t.book.enter c (t.stream.answer c).1⟩

/-- A new stream after a list of calls. -/
def booked (k C : Nat) (calls : List Call) : Booked k C := calls.foldl Booked.call {}

/-! ## What the calls do to the table -/

variable {s : EventStream k C} {c : Cursor} {x : Consumer}

theorem seat_consumers (s : EventStream k C) {i : Nat} (hi : i < C) (y : Consumer) (j : Nat) :
    (s.seat i y).consumers[j]? = if j = i then some y else s.consumers[j]? := by
  by_cases hij : j = i
  · rw [hij, if_pos rfl]
    exact Vector.getElem?_setIfInBounds_self_of_lt hi
  · rw [if_neg hij]
    exact Vector.getElem?_setIfInBounds_ne (Ne.symm hij)

/-- The tickets of the table after a record was put at a place. -/
theorem ticket_of_seat {i : Nat} (hi : i < C) {y : Consumer} (before after : Nat → UInt32)
    (hbefore : ∀ j z, s.consumers[j]? = some z → z.ticket = before j) (hy : y.ticket = after i)
    (hothers : ∀ j, j ≠ i → after j = before j) {j : Nat} {z : Consumer}
    (hz : (s.seat i y).consumers[j]? = some z) : z.ticket = after j := by
  rw [seat_consumers s hi] at hz
  by_cases hj : j = i
  · -- the place that was written
    rw [if_pos hj] at hz
    obtain rfl := Option.some.inj hz
    rw [hj, hy]
  · -- any other place
    rw [if_neg hj] at hz
    rw [hothers j hj]
    exact hbefore j z hz

/-- The record at a place. -/
def tenant (s : EventStream k C) (i : Fin C) : Consumer := s.consumers.get i

theorem getElem?_tenant (s : EventStream k C) (i : Fin C) :
    s.consumers[i.val]? = some (s.tenant i) := Vector.getElem?_eq_getElem i.isLt

/-- The cursor that is given out for a place. -/
def cursorFor (s : EventStream k C) (i : Fin C) : Cursor := ⟨i, (s.tenant i).ticket⟩

/-- Registering takes the first free place, under the ticket it has. -/
theorem register_free {i : Fin C} (h : s.freePlace? = some i) :
    s.register = .ok (s.cursorFor i, s.seat i ⟨true, (s.tenant i).ticket, s.head, 0⟩) := by
  unfold register
  rw [h]
  exact congrArg (fun t => Except.ok (_, t)) (set_eq_seat s i.isLt _)

/-- Without one it is refused. -/
theorem register_full (h : s.freePlace? = none) : s.register = .error (.capacityExceeded C) := by
  unfold register
  rw [h]

/-- Unregistering a cursor in use frees its place under the next ticket. -/
theorem unregister_live (h : s.consumer? c = some x) :
    ∃ report, s.unregister c
      = .ok (s.seat c.slot { x with active := false, ticket := x.ticket + 1 }, report) := by
  unfold unregister
  rw [h]
  exact ⟨_, rfl⟩

theorem unregister_stale (h : s.consumer? c = none) :
    s.unregister c = .error .unknownCursor := by
  unfold unregister
  rw [h]

/-- Dropping a handle does what unregistering it does. -/
theorem close_eq_serve (s : EventStream k C) (c : Cursor) :
    (s.close c).2 = (s.serve (.unregister c)).2 := by
  cases h : s.unregister c with
  | ok p => simp only [close, serve, h]
  | error e => simp only [close, serve, h]

/-! ## The invariant -/

/-- **The book and the table belong together.** -/
structure Booked.Kept (t : Booked k C) : Prop where
  live : ∀ c, c ∈ t.book.live ↔ (t.stream.consumer? c).isSome = true
  nodup : t.book.live.Nodup
  ticket : ∀ i y, t.stream.consumers[i]? = some y → y.ticket = UInt32.ofNat (t.book.endings i)
  ended : ∀ c ∈ t.book.ended, ∃ n, n < t.book.endings c.slot ∧ c.ticket = UInt32.ofNat n

theorem kept_new : ({} : Booked k C).Kept where
  live := by
    intro c
    show c ∈ [] ↔ ((empty : EventStream k C).consumer? c).isSome = true
    rw [consumer?_empty]
    exact ⟨fun h => (nomatch h), fun h => (nomatch h)⟩
  nodup := List.nodup_nil
  ticket := by
    intro i y hy
    obtain ⟨hlt, rfl⟩ := Vector.getElem?_eq_some_iff.mp hy
    show (Vector.replicate C ({} : Consumer))[i].ticket = _
    rw [Vector.getElem_replicate]
    rfl
  ended := nofun

namespace Booked.Kept

variable {s : EventStream k C} {b : Book} {c : Cursor} {x : Consumer}

/-- A cursor in use has a record, active and under its ticket. -/
theorem record (h : Kept ⟨s, b⟩) (hc : c ∈ b.live) :
    ∃ y, s.consumer? c = some y ∧ s.consumers[c.slot]? = some y ∧ y.active = true ∧
      y.ticket = c.ticket := by
  obtain ⟨y, hy⟩ := Option.isSome_iff_exists.mp ((h.live c).mp hc)
  exact ⟨y, hy, consumer?_eq_some.mp hy⟩

theorem stale (h : Kept ⟨s, b⟩) (hc : c ∉ b.live) : s.consumer? c = none := by
  rw [← Option.not_isSome_iff_eq_none]
  exact fun hsome => hc ((h.live c).mpr hsome)

/-- Writing the place of a cursor in use without touching its ticket keeps the book right. -/
theorem seat (h : Kept ⟨s, b⟩) (hc : s.consumer? c = some x) {y : Consumer}
    (hactive : y.active = true) (hticket : y.ticket = x.ticket) : Kept ⟨s.seat c.slot y, b⟩ := by
  obtain ⟨hget, -, hown⟩ := consumer?_eq_some.mp hc
  refine ⟨fun d => ?_, h.nodup, fun i z hz => ?_, h.ended⟩
  · -- the record is as active as before, and the others are not touched
    show d ∈ b.live ↔ ((s.seat c.slot y).consumer? d).isSome = true
    rw [consumer?_seat_live s hc (fun _ => hticket.trans hown) d]
    by_cases hdc : d = c
    · subst hdc
      rw [if_pos rfl, if_pos hactive, h.live d]
      show (s.consumer? d).isSome = true ↔ _
      rw [hc]
      exact Iff.rfl
    · rw [if_neg hdc]
      exact h.live d
  · exact ticket_of_seat (slot_lt_of_consumer? hc) _ _ h.ticket
      (hticket.trans (h.ticket c.slot x hget)) (fun _ _ => rfl) hz

theorem poll (h : Kept ⟨s, b⟩) (c : Cursor) : Kept ⟨(s.poll c).2, b⟩ := by
  cases hc : s.consumer? c with
  | none =>
    rw [poll_stale hc]
    exact h
  | some x =>
    rw [poll_live hc rfl]
    obtain ⟨-, hactive, -⟩ := consumer?_eq_some.mp hc
    exact h.seat hc hactive rfl

/-- Registering brings in a cursor that was not in use. -/
theorem register (h : Kept ⟨s, b⟩) {i : Fin C} (hfree : s.freePlace? = some i) :
    Kept ⟨s.seat i ⟨true, (s.tenant i).ticket, s.head, 0⟩,
      { b with live := s.cursorFor i :: b.live }⟩ := by
  obtain ⟨hnone, -, hcons⟩ := register_ok (register_free hfree)
  refine ⟨fun d => ?_, ?_, fun j z hz => ?_, h.ended⟩
  · -- the cursor that comes in is in use now, and the others are as before
    show d ∈ _ :: b.live ↔ _
    rw [hcons d, List.mem_cons]
    by_cases hd : d = s.cursorFor i
    · rw [if_pos hd]
      exact ⟨fun _ => rfl, fun _ => Or.inl hd⟩
    · rw [if_neg hd, ← h.live d]
      exact ⟨fun hmem => hmem.resolve_left hd, Or.inr⟩
  · -- it was not in use, because its place was free
    refine List.nodup_cons.mpr ⟨fun hmem => ?_, h.nodup⟩
    have hsome := (h.live _).mp hmem
    rw [hnone] at hsome
    nomatch hsome
  · -- a tenant that comes in leaves the ticket of its place alone
    exact ticket_of_seat i.isLt _ _ h.ticket (h.ticket i.val (s.tenant i) (s.getElem?_tenant i))
      (fun _ _ => rfl) hz

/-- Giving up a cursor in use counts the ticket of its place on. -/
theorem giveUp_live (h : Kept ⟨s, b⟩) (hc : c ∈ b.live) :
    Kept ⟨(s.serve (.unregister c)).2, b.giveUp c⟩ := by
  obtain ⟨x, hx, hget, hactive, hown⟩ := h.record hc
  obtain ⟨report, hreport⟩ := unregister_live hx
  obtain ⟨-, -, hcons⟩ := unregister_ok hreport
  have hticket := h.ticket c.slot x hget
  have hserve : (s.serve (.unregister c)).2
      = s.seat c.slot { x with active := false, ticket := x.ticket + 1 } := by
    simp only [serve, hreport]
  rw [hserve]
  refine ⟨fun d => ?_, ?_, fun i z hz => ?_, fun d hd => ?_⟩
  · -- the cursor that goes is not in use any more, and the others are as before
    show d ∈ (b.giveUp c).live ↔ _
    rw [Book.giveUp_of_mem hc, h.nodup.mem_erase_iff, hcons d]
    by_cases hdc : d = c
    · rw [if_pos hdc]
      exact ⟨fun hd => absurd hdc hd.1, fun hnone => absurd hnone Bool.false_ne_true⟩
    · rw [if_neg hdc, ← h.live d]
      exact ⟨fun hd => hd.2, fun hd => ⟨hdc, hd⟩⟩
  · show (b.giveUp c).live.Nodup
    rw [Book.giveUp_of_mem hc]
    exact h.nodup.erase c
  · -- the ticket of the place goes on by one, and so does the count of the cursors given up there
    refine ticket_of_seat (slot_lt_of_consumer? hx) (fun j => UInt32.ofNat (b.endings j))
      (fun j => UInt32.ofNat ((b.giveUp c).endings j)) h.ticket ?_ (fun j hj => ?_) hz
    · show x.ticket + 1 = UInt32.ofNat ((b.giveUp c).endings c.slot)
      rw [Book.endings_giveUp hc, if_pos rfl, UInt32.ofNat_add, ← hticket]
      rfl
    · show UInt32.ofNat ((b.giveUp c).endings j) = UInt32.ofNat (b.endings j)
      rw [Book.endings_giveUp hc, if_neg (Ne.symm hj), Nat.add_zero]
  · have hd : d ∈ (b.giveUp c).ended := hd
    rw [Book.endings_giveUp hc]
    rw [Book.giveUp_of_mem hc] at hd
    rcases List.mem_cons.mp hd with rfl | hd
    · -- the cursor that goes bore the last ticket
      refine ⟨b.endings d.slot, ?_, hown.symm.trans hticket⟩
      rw [if_pos rfl]
      exact Nat.lt_succ_self _
    · -- one that went before bore an earlier one
      obtain ⟨n, hn, hticket⟩ := h.ended d hd
      exact ⟨n, Nat.lt_of_lt_of_le hn (Nat.le_add_right _ _), hticket⟩

/-- Any other cursor is passed over. -/
theorem giveUp (h : Kept ⟨s, b⟩) (c : Cursor) :
    Kept ⟨(s.serve (.unregister c)).2, b.giveUp c⟩ := by
  by_cases hc : c ∈ b.live
  · exact h.giveUp_live hc
  · have hnone := unregister_stale (h.stale hc)
    have hserve : (s.serve (.unregister c)).2 = s := by simp only [serve, hnone]
    rw [hserve, Book.giveUp_of_not_mem hc]
    exact h

end Booked.Kept

/-- **Every call keeps the book and the table together.** -/
theorem Booked.Kept.call {t : Booked k C} (h : t.Kept) (c : Call) : (t.call c).Kept := by
  obtain ⟨s, b⟩ := t
  cases c with
  | drop c =>
    show Kept ⟨(s.close c).2, b.giveUp c⟩
    rw [close_eq_serve]
    exact h.giveUp c
  | ask r =>
    cases r with
    | push e => exact ⟨h.live, h.nodup, h.ticket, h.ended⟩
    | poll c => exact h.poll c
    | unregister c => exact h.giveUp c
    | register =>
      cases hfree : s.freePlace? with
      | none =>
        have hserve : s.serve .register = (.refused (.capacityExceeded C), s) := by
          simp only [serve, register_full hfree]
        show Kept ⟨(s.serve .register).2, b.enter _ (s.serve .register).1⟩
        rw [hserve]
        exact h
      | some i =>
        show Kept ⟨(s.serve .register).2, b.enter _ (s.serve .register).1⟩
        simp only [serve, register_free hfree]
        exact h.register hfree

theorem kept_booked (k C : Nat) (calls : List Call) : (booked k C calls).Kept := by
  have hfold : ∀ t : Booked k C, t.Kept → (calls.foldl Booked.call t).Kept := by
    induction calls with
    | nil => exact fun t h => h
    | cons c calls ih => exact fun t h => ih _ (h.call c)
  exact hfold {} kept_new

/-! ## Counting places -/

namespace Booked.Kept

variable {s : EventStream k C} {b : Book} {c d : Cursor}

/-- No two cursors in use have the same place. -/
theorem eq_of_slot_eq (h : Kept ⟨s, b⟩) (hc : c ∈ b.live) (hd : d ∈ b.live)
    (hslot : c.slot = d.slot) : c = d := by
  obtain ⟨y, -, hy, -, hcticket⟩ := h.record hc
  obtain ⟨z, -, hz, -, hdticket⟩ := h.record hd
  rw [hslot, hz] at hy
  obtain rfl := Option.some.inj hy
  obtain ⟨slot, ticket⟩ := c
  obtain ⟨slot', ticket'⟩ := d
  simp only at hslot hcticket hdticket
  rw [hslot, ← hcticket, hdticket]

/-- A place is taken exactly if a cursor in use is there. -/
theorem active_iff (h : Kept ⟨s, b⟩) (i : Fin C) :
    (s.tenant i).active = true ↔ ∃ c ∈ b.live, c.slot = i := by
  have hget := s.getElem?_tenant i
  constructor
  · -- who holds the ticket of a tenant is in use
    intro hactive
    refine ⟨s.cursorFor i, (h.live _).mpr ?_, rfl⟩
    exact Option.isSome_iff_exists.mpr ⟨_, consumer?_eq_some.mpr ⟨hget, hactive, rfl⟩⟩
  · -- who is in use has a record at its place
    rintro ⟨c, hc, hslot⟩
    obtain ⟨y, -, hy, hactive, -⟩ := h.record hc
    rw [hslot, hget] at hy
    rw [Option.some.inj hy]
    exact hactive

/-- **The cursors in use are as many as the places taken.** -/
theorem consumerCount_eq (h : Kept ⟨s, b⟩) : s.consumerCount = b.live.length := by
  have hperm : (b.live.map (·.slot)).Perm
      (((List.finRange C).filter fun i => (s.tenant i).active).map Fin.val) := by
    refine (List.perm_ext_iff_of_nodup ?_ ?_).mpr fun j => ?_
    · exact h.nodup.map_on fun c hc d hd hslot => h.eq_of_slot_eq hc hd hslot
    · exact ((List.nodup_finRange C).filter _).map Fin.val_injective
    · -- the places of the cursors in use are those that are taken
      simp only [List.mem_map, List.mem_filter, List.mem_finRange, true_and, h.active_iff]
      constructor
      · rintro ⟨c, hc, rfl⟩
        obtain ⟨y, hy, -⟩ := h.record hc
        exact ⟨⟨c.slot, slot_lt_of_consumer? hy⟩, ⟨c, hc, rfl⟩, rfl⟩
      · rintro ⟨i, ⟨c, hc, hslot⟩, rfl⟩
        exact ⟨c, hc, hslot⟩
  have hlist : s.consumers.toList = (List.finRange C).map s.tenant := by
    refine List.ext_getElem (by simp) fun i _ _ => ?_
    rw [List.getElem_map, List.getElem_finRange]
    rfl
  have hlength := hperm.length_eq
  rw [List.length_map, List.length_map] at hlength
  show s.consumers.countP (·.active) = b.live.length
  rw [hlength, ← List.countP_eq_length_filter, ← Vector.countP_toList, hlist, List.countP_map]
  rfl

end Booked.Kept

/-- The first free place is free, and those before it are not. -/
theorem freePlace?_eq_some {s : EventStream k C} {i : Fin C} (h : s.freePlace? = some i) :
    (s.tenant i).active = false ∧ ∀ j : Fin C, j < i → (s.tenant j).active = true := by
  obtain ⟨hfree, n, hn, hat, hbefore⟩ := List.find?_eq_some_iff_getElem.mp h
  rw [List.getElem_finRange] at hat
  have hval : n = i.val := congrArg Fin.val hat
  refine ⟨by rwa [Bool.not_eq_true'] at hfree, fun j hj => ?_⟩
  have hnot := hbefore j.val (by omega)
  rw [List.getElem_finRange, Bool.not_not] at hnot
  exact hnot

/-- There is a free place exactly if not all of them are counted. -/
theorem freePlace?_eq_none_iff (s : EventStream k C) :
    s.freePlace? = none ↔ s.consumerCount = C := by
  unfold consumerCount freePlace?
  rw [List.find?_eq_none, Vector.countP_eq_size]
  constructor
  · -- none is free, so all are counted
    intro h x hx
    obtain ⟨i, hi, rfl⟩ := Vector.mem_iff_getElem.mp hx
    simpa using h ⟨i, hi⟩ (List.mem_finRange _)
  · -- all are counted, so none is free
    intro h i _
    simpa using h _ (Vector.getElem_mem i.isLt)

/-! ## Who is in, where the next one goes, and who stays out -/

/-- The stream does not accept a cursor: it answers with an error or with nothing, and nothing in
    it changes. -/
structure Refuses (s : EventStream k C) (c : Cursor) : Prop where
  unregister : s.unregister c = .error .unknownCursor
  close : s.close c = ([], s)
  poll : s.poll c = (none, s)
  lag : s.lag c = 0
  lostBy : s.lostBy c = 0

/-- **The table is as the book has it.** -/
structure Houses (s : EventStream k C) (b : Book) : Prop where
  /-- The cursors in use have places of their own, all of them in the table. -/
  slots : (b.live.map (·.slot)).Nodup
  slot_lt : ∀ c ∈ b.live, c.slot < C
  count : s.consumerCount = b.live.length
  /-- A cursor is given out exactly if fewer than `C` are in use. -/
  register_iff : (∃ c t, s.register = .ok (c, t)) ↔ b.live.length < C
  /-- It has the first free place, and nothing to read and nothing lost. -/
  granted : ∀ c t, s.register = .ok (c, t) → c.slot < C ∧ (∀ d ∈ b.live, d.slot ≠ c.slot) ∧
    (∀ i < c.slot, ∃ d ∈ b.live, d.slot = i) ∧ t.lag c = 0 ∧ t.lostBy c = 0
  /-- Otherwise the answer names the number of places, and nothing changes. -/
  refused : ¬ b.live.length < C → s.serve .register = (.refused (.capacityExceeded C), s)
  /-- A cursor in use can always be given up, and a handle dropped, without the others noticing. -/
  unregister : ∀ c ∈ b.live, ∃ t report, s.unregister c = .ok (t, report) ∧
    s.close c = ([report], t) ∧ ∀ d ∈ b.live, d ≠ c →
      t.consumer? d = s.consumer? d ∧ t.lag d = s.lag d ∧ t.lostBy d = s.lostBy d
  /-- Asked by place, the stream tells the losses of the cursor that is there, if one is. -/
  lostAt : ∀ c ∈ b.live, s.lostAt? c.slot = some (s.lostBy c)
  lostAt_free : ∀ i, (∀ c ∈ b.live, c.slot ≠ i) → s.lostAt? i = none
  /-- No other cursor is accepted, -/
  stale : ∀ c ∉ b.live, s.Refuses c
  /-- and none that has been given up is in use. -/
  ended : ∀ c ∈ b.ended, c ∉ b.live

namespace Booked.Kept

variable {s : EventStream k C} {b : Book} {c d : Cursor}

theorem register_iff (h : Kept ⟨s, b⟩) :
    (∃ c t, s.register = .ok (c, t)) ↔ b.live.length < C := by
  have hle : s.consumerCount ≤ C := Vector.countP_le_size
  have hfull := s.freePlace?_eq_none_iff
  rw [h.consumerCount_eq] at hle hfull
  cases hfree : s.freePlace? with
  | none =>
    have hall := hfull.mp hfree
    rw [register_full hfree]
    constructor
    · rintro ⟨c, t, hok⟩
      nomatch hok
    · intro hlt
      omega
  | some i =>
    rw [register_free hfree]
    constructor
    · intro _
      refine Nat.lt_of_le_of_ne hle fun hall => ?_
      rw [hfull.mpr hall] at hfree
      nomatch hfree
    · intro _
      exact ⟨_, _, rfl⟩

theorem granted (h : Kept ⟨s, b⟩) {t : EventStream k C} (hok : s.register = .ok (c, t)) :
    c.slot < C ∧ (∀ d ∈ b.live, d.slot ≠ c.slot) ∧ (∀ i < c.slot, ∃ d ∈ b.live, d.slot = i) ∧
      t.lag c = 0 ∧ t.lostBy c = 0 := by
  obtain ⟨-, ht, hcons⟩ := register_ok hok
  have hrecord := hcons c
  rw [if_pos rfl] at hrecord
  have hpending : t.pending ⟨true, c.ticket, s.head, 0⟩ = 0 := by
    rw [ht]
    show (s.head - s.head).toNat = 0
    rw [UInt32.sub_self]
    rfl
  have hfresh : t.lag c = 0 ∧ t.lostBy c = 0 := by
    unfold lag lostBy lost
    rw [hrecord]
    simp [hpending]
  cases hfree : s.freePlace? with
  | none =>
    rw [register_full hfree] at hok
    nomatch hok
  | some i =>
    rw [register_free hfree] at hok
    obtain ⟨rfl, -⟩ := Prod.mk.inj (Except.ok.inj hok)
    obtain ⟨hidle, hbefore⟩ := freePlace?_eq_some hfree
    refine ⟨i.isLt, fun d hd hslot => ?_, fun j hj => ?_, hfresh⟩
    · -- nobody is at a free place
      rw [(h.active_iff i).mpr ⟨d, hd, hslot⟩] at hidle
      nomatch hidle
    · -- and somebody is at each of those before the first one
      exact (h.active_iff ⟨j, Nat.lt_trans hj i.isLt⟩).mp (hbefore _ hj)

theorem unregister (h : Kept ⟨s, b⟩) (hc : c ∈ b.live) :
    ∃ t report, s.unregister c = .ok (t, report) ∧ s.close c = ([report], t) ∧
      ∀ d ∈ b.live, d ≠ c →
        t.consumer? d = s.consumer? d ∧ t.lag d = s.lag d ∧ t.lostBy d = s.lostBy d := by
  obtain ⟨x, hx, -⟩ := h.record hc
  obtain ⟨report, hreport⟩ := unregister_live hx
  obtain ⟨-, -, hcons⟩ := unregister_ok hreport
  refine ⟨_, report, hreport, ?_, fun d _ hdc => ?_⟩
  · unfold close
    rw [hreport]
  · -- the others keep their records, and with them what they lag and have lost
    have hsame := hcons d
    rw [if_neg hdc] at hsame
    refine ⟨hsame, ?_, ?_⟩
    · unfold lag
      rw [hsame]
      rfl
    · unfold lostBy
      rw [hsame]
      rfl

theorem refuses (h : Kept ⟨s, b⟩) (hc : c ∉ b.live) : s.Refuses c := by
  have hnone := h.stale hc
  refine ⟨unregister_stale hnone, ?_, poll_stale hnone, ?_, ?_⟩
  · unfold close
    rw [unregister_stale hnone]
  · unfold lag
    rw [hnone]
    rfl
  · unfold lostBy
    rw [hnone]
    rfl

theorem lostAt (h : Kept ⟨s, b⟩) (hc : c ∈ b.live) : s.lostAt? c.slot = some (s.lostBy c) := by
  obtain ⟨y, hy, hget, hactive, -⟩ := h.record hc
  unfold lostAt? lostBy
  rw [hy, hget, Option.filter_some, if_pos hactive]
  rfl

theorem lostAt_free (h : Kept ⟨s, b⟩) {i : Nat} (hi : ∀ c ∈ b.live, c.slot ≠ i) :
    s.lostAt? i = none := by
  unfold lostAt?
  cases hget : s.consumers[i]? with
  | none => rfl
  | some y =>
    obtain ⟨hlt, rfl⟩ := Vector.getElem?_eq_some_iff.mp hget
    have hidle : ¬ s.consumers[i].active = true := by
      intro hactive
      obtain ⟨c, hc, hslot⟩ := (h.active_iff ⟨i, hlt⟩).mp hactive
      exact hi c hc hslot
    rw [Option.filter_some, if_neg hidle]
    rfl

/-- **A cursor that was given up is not in use again**, as long as no ticket has come round. -/
theorem not_live_of_ended (h : Kept ⟨s, b⟩) (hfew : b.ended.length < 4294967296)
    (hc : c ∈ b.ended) : c ∉ b.live := by
  intro hlive
  obtain ⟨n, hn, hold⟩ := h.ended c hc
  obtain ⟨y, -, hget, -, hown⟩ := h.record hlive
  have hnow := h.ticket c.slot y hget
  have hle : b.endings c.slot ≤ b.ended.length := List.countP_le_length
  have hsame : UInt32.ofNat n = UInt32.ofNat (b.endings c.slot) := by
    rw [← hold, ← hown]
    exact hnow
  have hvalue := congrArg UInt32.toNat hsame
  have hn : n < b.endings c.slot := hn
  rw [Ring.toNat_ofNat (by omega), Ring.toNat_ofNat (by omega)] at hvalue
  omega

end Booked.Kept

theorem booked_append (k C : Nat) (before after : List Call) :
    booked k C (before ++ after) = after.foldl Booked.call (booked k C before) :=
  List.foldl_append

/-- The book keeps what it says of cursors that were given up. -/
theorem ended_foldl (calls : List Call) (t : Booked k C) :
    t.book.ended ⊆ (calls.foldl Booked.call t).book.ended := by
  induction calls generalizing t with
  | nil => exact List.Subset.refl _
  | cons c calls ih => exact List.Subset.trans (t.book.ended_enter c _) (ih (t.call c))

/-- **The consumer table is in order.**  Whatever its clients do to a stream, as long as fewer than
    `2 ^ 32` cursors have been given up: the table houses the cursors in use as the book has them,
    and refuses all others, those that have ever been given up among them. -/
theorem tenancy_in_order (k C : Nat) (calls : List Call)
    (hfew : (booked k C calls).book.ended.length < 4294967296) :
    (booked k C calls).stream.Houses (booked k C calls).book ∧
      ∀ before after, calls = before ++ after →
        (booked k C before).book.ended ⊆ (booked k C calls).book.ended := by
  refine ⟨?_, fun before after hcalls => ?_⟩
  · -- one field after the other, out of the invariant
    have hkept := kept_booked k C calls
    generalize booked k C calls = t at hkept hfew ⊢
    obtain ⟨s, b⟩ := t
    exact {
      slots := hkept.nodup.map_on fun c hc d hd hslot => hkept.eq_of_slot_eq hc hd hslot
      slot_lt := by
        intro c hc
        obtain ⟨y, hy, -⟩ := hkept.record hc
        exact slot_lt_of_consumer? hy
      count := hkept.consumerCount_eq
      register_iff := hkept.register_iff
      granted := fun c t hok => hkept.granted hok
      refused := by
        intro hfull
        cases hfree : s.freePlace? with
        | none => simp only [serve, register_full hfree]
        | some i => exact absurd (hkept.register_iff.mp ⟨_, _, register_free hfree⟩) hfull
      unregister := fun c hc => hkept.unregister hc
      lostAt := fun c hc => hkept.lostAt hc
      lostAt_free := fun i hi => hkept.lostAt_free hi
      stale := fun c hc => hkept.refuses hc
      ended := fun c hc => hkept.not_live_of_ended hfew hc }
  · rw [hcalls, booked_append]
    exact ended_foldl after _

/-- Two places on a ring of two: a third client is refused; the first one is overtaken, gives up its
    place with two events lost, and the place goes to another; the second drops its handle. -/
def reused : List Call :=
  [.ask .register, .ask .register, .ask .register, .ask (.push ⟨10, .keyDown .dit⟩),
    .ask (.push ⟨20, .keyUp .dit⟩), .ask (.push ⟨30, .gap .character⟩),
    .ask (.push ⟨40, .keyDown .dah⟩), .ask (.unregister ⟨0, 0⟩), .ask .register, .drop ⟨1, 0⟩]

/-- The old cursor for the place stays out, and its losses are not the new one's. -/
theorem tenancy_in_order_reused :
    let t := booked 1 2 reused
    t.book.ended.length < 4294967296 ∧ t.book.live = [⟨0, 1⟩] ∧ t.book.ended = [⟨1, 0⟩, ⟨0, 0⟩] ∧
      t.stream.Houses t.book ∧ t.stream.Refuses ⟨0, 0⟩ ∧ t.stream.lostAt? 0 = some 0 ∧
      (booked 1 2 (reused.take 7)).stream.lostAt? 0 = some 2 := by
  intro t
  have hfew : t.book.ended.length < 4294967296 := by decide +kernel
  have hended : t.book.ended = [⟨1, 0⟩, ⟨0, 0⟩] := by decide +kernel
  have hhouses : t.stream.Houses t.book := (tenancy_in_order 1 2 reused hfew).1
  have hold : (⟨0, 0⟩ : Cursor) ∉ t.book.live := by
    refine hhouses.ended _ ?_
    rw [hended]
    decide
  exact ⟨hfew, by decide +kernel, hended, hhouses, hhouses.stale _ hold, by decide +kernel,
    by decide +kernel⟩

end EventStream

end IambicKeyer
