/-
  What a consumer has still to read.

  1. **`Unread`** — from a number up to the head, the ring holds the events of a list one after the
     other.  A write appends to the list as long as fewer events are unread than the ring has slots
     (`Unread.push`): the slot of the head is none of theirs.

  2. **`Owes`** — the events of a list are what a cursor has still to read, and so many it has lost.
     Registering owes nothing, writing appends, polling takes the first, draining takes all.

  What has been written before, and how much, does not matter, nor that the numbers start again from
  `0` after the largest: only the events that are owed have to fit into the ring.
-/
import IambicKeyer.Proofs.Stream.Retained
import IambicKeyer.Proofs.Stream.Separation

namespace IambicKeyer

namespace EventStream

variable {k C : Nat} {s : EventStream k C}

/-! ## Unread events -/

/-- From a number up to the head the ring holds the events of a list. -/
def Unread (s : EventStream k C) : UInt32 → List TimedEvent → Prop
  | next, [] => s.head = next
  | next, e :: es => s.slotOf next = Slot.ofEvent next e ∧ s.Unread (next + 1) es

/-- The list is as long as the way to the head. -/
theorem Unread.head {next : UInt32} {es : List TimedEvent} (h : s.Unread next es) :
    s.head = next + UInt32.ofNat es.length := by
  induction es generalizing next with
  | nil =>
    show s.head = next + 0
    rw [UInt32.add_zero]
    exact h
  | cons e es ih =>
    rw [List.length_cons, Ring.add_ofNat_succ]
    exact ih h.2

/-- **A write appends to what is unread**, if there is room. -/
theorem Unread.push {next : UInt32} {es : List TimedEvent} (h : s.Unread next es) (e : TimedEvent)
    (hroom : es.length < Ring.size k) (hfew : es.length + 1 < 4294967296) :
    (s.push e).Unread next (es ++ [e]) := by
  induction es generalizing next with
  | nil =>
    obtain rfl : s.head = next := h
    refine ⟨?_, rfl⟩
    rw [slotOf_push, if_pos rfl]
  | cons x es ih =>
    -- the slot of the head is none of those that are unread
    have hother : Ring.index k s.head ≠ Ring.index k next := by
      rw [h.head]
      exact Ring.index_add_ne (Nat.zero_lt_succ _) hroom (Nat.lt_of_succ_lt hfew) next
    refine ⟨?_, ih h.2 (Nat.lt_of_succ_lt hroom) (Nat.lt_of_succ_lt hfew)⟩
    rw [slotOf_push, if_neg hother]
    exact h.1

/-- The consumer table does not matter. -/
theorem Unread.seat {next : UInt32} {es : List TimedEvent} (h : s.Unread next es) (i : Nat)
    (y : Consumer) : (s.seat i y).Unread next es := by
  induction es generalizing next with
  | nil => exact h
  | cons e es ih => exact ⟨h.1, ih h.2⟩

/-- **The first unread event is the first that can be read.** -/
theorem Unread.firstReadable {next : UInt32} {es : List TimedEvent} (h : s.Unread next es)
    (hfits : ∀ e ∈ es, e.Fits) (lost : Nat) :
    ∃ next', s.firstReadable es.length next lost = (es.head?, next', lost) ∧
      s.Unread next' es.tail := by
  cases es with
  | nil => exact ⟨next, rfl, h⟩
  | cons e es =>
    obtain ⟨hlow, hhigh⟩ := hfits e List.mem_cons_self
    refine ⟨next + 1, ?_, h.2⟩
    rw [List.length_cons, EventStream.firstReadable, h.1, Slot.read?_ofEvent _ hlow hhigh]
    rfl

/-! ## What a cursor is owed -/

/-- **The events of a list are what the cursor has still to read**, and `lost` is how many it has
    lost before them. -/
structure Owes (s : EventStream k C) (c : Cursor) (lost : Nat) (es : List TimedEvent) : Prop where
  room : es.length ≤ Ring.size k
  /-- There are words enough to tell how many they are. -/
  few : es.length < 4294967296
  fits : ∀ e ∈ es, e.Fits
  record : ∃ y, s.consumer? c = some y ∧ y.lost = lost ∧ s.Unread y.next es

variable {c : Cursor} {lost : Nat} {es : List TimedEvent}

/-- A consumer that has just been registered is owed nothing. -/
theorem owes_register {t : EventStream k C} (h : s.register = .ok (c, t)) : t.Owes c 0 [] := by
  obtain ⟨-, hseat, hconsumer⟩ := register_ok h
  refine ⟨Nat.zero_le _, Nat.zero_lt_succ _, fun e he => (nomatch he),
    ⟨true, c.ticket, s.head, 0⟩, ?_, rfl, ?_⟩
  · rw [hconsumer, if_pos rfl]
  · rw [hseat]
    rfl

namespace Owes

/-- A consumer is as far behind as there are events that it is owed. -/
theorem pending (h : s.Owes c lost es) {y : Consumer} (hunread : s.Unread y.next es) :
    s.pending y = es.length := by
  unfold EventStream.pending
  rw [hunread.head, UInt32.add_comm, UInt32.add_sub_cancel]
  exact Ring.toNat_ofNat h.few

theorem lag (h : s.Owes c lost es) : s.lag c = es.length := by
  obtain ⟨y, hy, -, hunread⟩ := h.record
  unfold EventStream.lag
  rw [hy]
  exact h.pending hunread

/-- **It loses nothing more** as long as what it is owed has room. -/
theorem lostBy (h : s.Owes c lost es) : s.lostBy c = lost := by
  obtain ⟨y, hy, hlost, hunread⟩ := h.record
  have hroom : es.length ≤ s.capacity := h.room
  have hcount : s.lostBy c = y.lost + (s.pending y - s.capacity) := by
    unfold EventStream.lostBy
    rw [hy]
    rfl
  rw [hcount, hlost, h.pending hunread]
  omega

/-- **A write is owed from then on.** -/
theorem push (h : s.Owes c lost es) {e : TimedEvent} (hfits : e.Fits)
    (hroom : es.length < Ring.size k) (hfew : es.length + 1 < 4294967296) :
    (s.push e).Owes c lost (es ++ [e]) := by
  obtain ⟨y, hy, hlost, hunread⟩ := h.record
  have hlength : (es ++ [e]).length = es.length + 1 := by
    rw [List.length_append, List.length_singleton]
  refine ⟨?_, ?_, ?_, y, hy, hlost, hunread.push e hroom hfew⟩
  · rw [hlength]
    exact hroom
  · rw [hlength]
    exact hfew
  · intro x hx
    rcases List.mem_append.mp hx with hx | hx
    · exact h.fits x hx
    · rw [List.mem_singleton.mp hx]
      exact hfits

theorem pushAll (h : s.Owes c lost es) {more : List TimedEvent} (hfits : ∀ e ∈ more, e.Fits)
    (hroom : es.length + more.length ≤ Ring.size k)
    (hfew : es.length + more.length < 4294967296) :
    (s.pushAll more).Owes c lost (es ++ more) := by
  induction more generalizing s es with
  | nil =>
    rw [List.append_nil]
    exact h
  | cons e more ih =>
    obtain ⟨he, hmore⟩ := List.forall_mem_cons.mp hfits
    rw [List.length_cons] at hroom hfew
    have hlength : (es ++ [e]).length = es.length + 1 := by
      rw [List.length_append, List.length_singleton]
    have hone := h.push he (by omega) (by omega)
    have hall := ih hone hmore (by omega) (by omega)
    rw [List.append_assoc] at hall
    exact hall

/-- **A poll gives the first event that is owed**, and the others are owed still. -/
theorem poll (h : s.Owes c lost es) : ∃ t, s.poll c = (es.head?, t) ∧ t.Owes c lost es.tail := by
  obtain ⟨y, hy, hlost, hunread⟩ := h.record
  have hpending := h.pending hunread
  have hroom : es.length ≤ s.capacity := h.room
  have htail : es.tail.length ≤ es.length := by
    rw [List.length_tail]
    exact Nat.sub_le _ _
  obtain ⟨next, hfirst, hrest⟩ := hunread.firstReadable h.fits y.lost
  have hread : s.firstReadable (min (s.pending y) s.capacity)
      (y.next + UInt32.ofNat (s.pending y - s.capacity)) (y.lost + (s.pending y - s.capacity))
      = (es.head?, next, y.lost) := by
    have hstart : y.next + UInt32.ofNat 0 = y.next := UInt32.add_zero y.next
    rw [hpending, Nat.min_eq_left hroom, Nat.sub_eq_zero_of_le hroom, hstart]
    exact hfirst
  refine ⟨_, poll_live hy hread, Nat.le_trans htail hroom, Nat.lt_of_le_of_lt htail h.few, ?_,
    { y with next := next }, ?_, hlost, hrest.seat c.slot _⟩
  · exact fun e he => h.fits e (List.mem_of_mem_tail he)
  · have hrecord := consumer?_poll hy hread c
    rw [if_pos rfl, poll_live hy hread] at hrecord
    exact hrecord

/-- **Several polls** give what is owed in order, as far as they go. -/
theorem take (h : s.Owes c lost es) (n : Nat) :
    (s.take c n).1 = es.take n ∧ (s.take c n).2.Owes c lost (es.drop n) := by
  induction n generalizing s es with
  | zero => exact ⟨rfl, h⟩
  | succ n ih =>
    obtain ⟨t, hpoll, hlater⟩ := h.poll
    rw [EventStream.take, hpoll]
    cases es with
    | nil => exact ⟨rfl, hlater⟩
    | cons e es =>
      obtain ⟨hevents, hrest⟩ := ih hlater
      exact ⟨congrArg (e :: ·) hevents, hrest⟩

/-- **A drain** gives all that is owed. -/
theorem drain (h : s.Owes c lost es) : (s.drain c).1 = es ∧ (s.drain c).2.Owes c lost [] := by
  have htake := h.take (s.lag c)
  rw [h.lag, List.take_length, List.drop_length] at htake
  unfold EventStream.drain
  rw [h.lag]
  exact htake

end Owes

end EventStream

end IambicKeyer
