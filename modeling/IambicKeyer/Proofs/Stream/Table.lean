/-
  The consumer table, seen through the cursors.

  1. **`seat`** — registering, unregistering and polling each write one place of the table and
     leave the ring alone: `register_ok`, `unregister_ok` and `poll_live` say which record they
     put there.

  2. **`consumer?_seat`** — a place that is free, or that belongs to the cursor itself, can be
     written without any other cursor noticing: the consumer of every other cursor stays what it
     was, those of the same place and another ticket included, which have none before and after.
-/
import IambicKeyer.Stream

namespace IambicKeyer

namespace EventStream

variable {k C : Nat}

/-- Puts a record at a place of the table. -/
def seat (s : EventStream k C) (i : Nat) (y : Consumer) : EventStream k C :=
  { s with consumers := s.consumers.setIfInBounds i y }

theorem set_eq_seat (s : EventStream k C) {i : Nat} (h : i < C) (y : Consumer) :
    { s with consumers := s.consumers.set i y h } = s.seat i y := by
  have hset : s.consumers.set i y h = s.consumers.setIfInBounds i y :=
    Vector.ext fun j hj => by rw [Vector.getElem_set, Vector.getElem_setIfInBounds]
  rw [seat, hset]

/-! ## The consumer of a cursor -/

theorem consumer?_eq_some {s : EventStream k C} {c : Cursor} {y : Consumer} :
    s.consumer? c = some y ↔
      s.consumers[c.slot]? = some y ∧ y.active = true ∧ y.ticket = c.ticket := by
  unfold consumer?
  rw [Option.filter_eq_some_iff, Bool.and_eq_true, beq_iff_eq]

/-- A cursor has no consumer if the record at its place is free or bears another ticket. -/
theorem consumer?_eq_none {s : EventStream k C} {c : Cursor}
    (h : ∀ y, s.consumers[c.slot]? = some y → y.active = true → y.ticket ≠ c.ticket) :
    s.consumer? c = none := by
  rw [Option.eq_none_iff_forall_not_mem]
  intro y hy
  obtain ⟨hget, hactive, hticket⟩ := consumer?_eq_some.mp hy
  exact h y hget hactive hticket

/-- Nobody is registered with a new stream. -/
theorem consumer?_empty (c : Cursor) : (empty : EventStream k C).consumer? c = none := by
  refine consumer?_eq_none fun y hy hactive => ?_
  obtain ⟨hlt, rfl⟩ := Vector.getElem?_eq_some_iff.mp hy
  rw [empty, Vector.getElem_replicate] at hactive
  nomatch hactive

/-- **Writing the place of a cursor concerns this cursor only**, if the place was free or its own
    and does not pass to another. -/
theorem consumer?_seat (s : EventStream k C) {c : Cursor} {y : Consumer} (hplace : c.slot < C)
    (hold : ∀ x, s.consumers[c.slot]? = some x → x.active = true → x.ticket = c.ticket)
    (hnew : y.active = true → y.ticket = c.ticket) (d : Cursor) :
    (s.seat c.slot y).consumer? d
      = if d = c then (if y.active then some y else none) else s.consumer? d := by
  have hat : (s.seat c.slot y).consumers[c.slot]? = some y :=
    Vector.getElem?_setIfInBounds_self_of_lt hplace
  by_cases hdc : d = c
  · subst hdc
    rw [if_pos rfl]
    by_cases hactive : y.active = true
    · rw [if_pos hactive]
      exact consumer?_eq_some.mpr ⟨hat, hactive, hnew hactive⟩
    · rw [if_neg hactive]
      refine consumer?_eq_none fun x hx hxa => ?_
      rw [hat] at hx
      obtain rfl := Option.some.inj hx
      exact absurd hxa hactive
  · rw [if_neg hdc]
    by_cases hslot : d.slot = c.slot
    · -- the same place under another ticket: no consumer before, none after
      have hticket : d.ticket ≠ c.ticket := by
        intro h
        cases d
        cases c
        simp only at hslot h
        exact hdc (by rw [hslot, h])
      rw [consumer?_eq_none, consumer?_eq_none]
      · intro x hx hxa h
        rw [hslot] at hx
        exact hticket (h.symm.trans (hold x hx hxa))
      · intro x hx hxa h
        rw [hslot, hat] at hx
        obtain rfl := Option.some.inj hx
        exact hticket (h.symm.trans (hnew hxa))
    · have hget : (s.seat c.slot y).consumers[d.slot]? = s.consumers[d.slot]? :=
        Vector.getElem?_setIfInBounds_ne (Ne.symm hslot)
      unfold consumer?
      rw [hget]

/-- The place of a live cursor is one of the table. -/
theorem slot_lt_of_consumer? {s : EventStream k C} {c : Cursor} {y : Consumer}
    (h : s.consumer? c = some y) : c.slot < C := by
  obtain ⟨hget, -, -⟩ := consumer?_eq_some.mp h
  exact (Vector.getElem?_eq_some_iff.mp hget).1

/-- A live cursor's place can be written as `consumer?_seat` asks. -/
theorem consumer?_seat_live (s : EventStream k C) {c : Cursor} {x y : Consumer}
    (h : s.consumer? c = some x) (hnew : y.active = true → y.ticket = c.ticket) (d : Cursor) :
    (s.seat c.slot y).consumer? d
      = if d = c then (if y.active then some y else none) else s.consumer? d := by
  obtain ⟨hget, -, hticket⟩ := consumer?_eq_some.mp h
  refine consumer?_seat s (slot_lt_of_consumer? h) (fun z hz _ => ?_) hnew d
  rw [hget] at hz
  obtain rfl := Option.some.inj hz
  exact hticket

/-! ## What the operations put there -/

/-- **Registering** gives out a cursor that was not live and starts it at the head. -/
theorem register_ok {s t : EventStream k C} {c : Cursor} (h : s.register = .ok (c, t)) :
    s.consumer? c = none ∧ t = s.seat c.slot ⟨true, c.ticket, s.head, 0⟩ ∧
      ∀ d, t.consumer? d
        = if d = c then some ⟨true, c.ticket, s.head, 0⟩ else s.consumer? d := by
  unfold register at h
  cases hfree : s.freePlace? with
  | none =>
    rw [hfree] at h
    cases h
  | some i =>
    rw [hfree] at h
    obtain ⟨rfl, rfl⟩ := Prod.mk.inj (Except.ok.inj h)
    have hidle : s.consumers[i].active = false := by
      have hnot := List.find?_some hfree
      rwa [Bool.not_eq_true'] at hnot
    have hfreed : ∀ x, s.consumers[i.val]? = some x → x.active = false := by
      intro x hx
      obtain ⟨hlt, rfl⟩ := Vector.getElem?_eq_some_iff.mp hx
      exact hidle
    refine ⟨?_, set_eq_seat s i.isLt _, fun d => ?_⟩
    · refine consumer?_eq_none fun x hx hxa => ?_
      rw [hfreed x hx] at hxa
      exact absurd hxa Bool.false_ne_true
    · rw [set_eq_seat s i.isLt]
      refine consumer?_seat s (c := ⟨i.val, s.consumers[i].ticket⟩)
        (y := ⟨true, s.consumers[i].ticket, s.head, 0⟩) i.isLt (fun x hx hxa => ?_)
        (fun _ => rfl) d
      rw [hfreed x hx] at hxa
      exact absurd hxa Bool.false_ne_true

/-- **Unregistering** ends the cursor. -/
theorem unregister_ok {s t : EventStream k C} {c : Cursor} {report : Report}
    (h : s.unregister c = .ok (t, report)) :
    ∃ y, t = s.seat c.slot y ∧ ∀ d, t.consumer? d = if d = c then none else s.consumer? d := by
  unfold unregister at h
  cases hlive : s.consumer? c with
  | none =>
    rw [hlive] at h
    cases h
  | some x =>
    rw [hlive] at h
    obtain ⟨rfl, -⟩ := Prod.mk.inj (Except.ok.inj h)
    refine ⟨{ x with active := false, ticket := x.ticket + 1 }, rfl, fun d => ?_⟩
    exact consumer?_seat_live s (y := { x with active := false, ticket := x.ticket + 1 }) hlive
      (fun hfalse => (nomatch hfalse)) d

/-- **Polling** a cursor that is not live does nothing. -/
theorem poll_stale {s : EventStream k C} {c : Cursor} (h : s.consumer? c = none) :
    s.poll c = (none, s) := by
  unfold poll
  rw [h]

/-- **Polling** a live cursor moves its own reading place to where the search for a readable
    event has stopped. -/
theorem poll_live {s : EventStream k C} {c : Cursor} {x : Consumer} {e : Option TimedEvent}
    {next : UInt32} {lost : Nat} (h : s.consumer? c = some x)
    (hread : s.firstReadable (min (s.pending x) s.capacity)
      (x.next + UInt32.ofNat (s.pending x - s.capacity))
      (x.lost + (s.pending x - s.capacity)) = (e, next, lost)) :
    s.poll c = (e, s.seat c.slot { x with next := next, lost := lost }) := by
  unfold poll
  rw [h]
  simp only [hread]
  rfl

/-- Polling leaves the ring alone. -/
@[simp] theorem poll_head (s : EventStream k C) (c : Cursor) : (s.poll c).2.head = s.head := by
  cases h : s.consumer? c with
  | none => rw [poll_stale h]
  | some x =>
    rw [poll_live h rfl]
    rfl

end EventStream

end IambicKeyer
