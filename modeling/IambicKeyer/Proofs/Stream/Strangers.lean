/-
  Cursors of another stream.

      this stream:    place 0 ──  place 1 ──▶ cursor ⟨1, 0⟩
      another one:    place 0 ──  place 1 ──▶ cursor ⟨1, 0⟩     the same right

  A cursor names a place and a ticket, and not the stream that gave it out.  The ticket of a place
  counts the cursors that were given up there, so a STRANGER, a cursor of another stream, looks like
  one of this stream's own if the place is taken here too and as many cursors were given up at it
  in both streams.

  1. **Tickets** — the ticket of a cursor that is given out, and of every cursor in use, is the number
     of those given up before at its place (`Booked.Kept.ticket_of_register`, `Booked.Kept.mem_live_iff`).

  2. **The result** (`stranger_refused_iff`) — this is the only way: a stream refuses every stranger
     for which it does not hold, and takes any other one for the cursor it has itself given out.
-/
import IambicKeyer.Proofs.Stream.Tenancy

namespace IambicKeyer

namespace EventStream

variable {k C : Nat}

/-! ## Tickets -/

namespace Booked.Kept

variable {s : EventStream k C} {b : Book} {c : Cursor}

/-- The ticket of a new cursor is the number of those given up at its place. -/
theorem ticket_of_register (h : Kept ⟨s, b⟩) {t : EventStream k C} (hok : s.register = .ok (c, t)) :
    c.ticket = UInt32.ofNat (b.endings c.slot) := by
  cases hfree : s.freePlace? with
  | none =>
    rw [register_full hfree] at hok
    nomatch hok
  | some i =>
    rw [register_free hfree] at hok
    obtain ⟨rfl, -⟩ := Prod.mk.inj (Except.ok.inj hok)
    exact h.ticket i.val _ (s.getElem?_tenant i)

/-- **The cursors in use** are those of the places that are taken, each under the number of cursors
    given up there. -/
theorem mem_live_iff (h : Kept ⟨s, b⟩) :
    c ∈ b.live ↔
      (∃ d ∈ b.live, d.slot = c.slot) ∧ c.ticket = UInt32.ofNat (b.endings c.slot) := by
  have hticket : ∀ d ∈ b.live, d.ticket = UInt32.ofNat (b.endings d.slot) := by
    intro d hd
    obtain ⟨y, -, hget, -, hown⟩ := h.record hd
    rw [← hown]
    exact h.ticket d.slot y hget
  constructor
  · intro hc
    exact ⟨⟨c, hc, rfl⟩, hticket c hc⟩
  · rintro ⟨⟨d, hd, hslot⟩, hown⟩
    have hsame : d = c := by
      obtain ⟨place, ticket⟩ := c
      obtain ⟨place', ticket'⟩ := d
      obtain rfl : place' = place := hslot
      exact congrArg (Cursor.mk place') ((hticket _ hd).trans hown.symm)
    rw [← hsame]
    exact hd

/-- A cursor is refused exactly if it is not in use. -/
theorem refuses_iff (h : Kept ⟨s, b⟩) : s.Refuses c ↔ c ∉ b.live := by
  constructor
  · intro hrefuses hc
    obtain ⟨t, report, hok, -⟩ := h.unregister hc
    rw [hrefuses.unregister] at hok
    nomatch hok
  · intro hc
    exact h.refuses hc

end Booked.Kept

/-! ## Strangers -/

/-- The two books have had as many cursors given up at a place, as far as 32-bit tickets tell. -/
def Book.SameEndings (b other : Book) (i : Nat) : Prop :=
  other.endings i % 4294967296 = b.endings i % 4294967296

theorem ofNat_eq_ofNat_iff (m n : Nat) :
    UInt32.ofNat m = UInt32.ofNat n ↔ m % 4294967296 = n % 4294967296 := by
  rw [← UInt32.toNat_inj, UInt32.toNat_ofNat', UInt32.toNat_ofNat']

/-- **Strangers.**  Let another stream have given out a cursor after any calls.  After any calls to
    this stream, with cursors of either of them, it refuses the stranger, unless it has a consumer
    at that place and has had as many cursors given up there as the other one then had.  If so, it
    takes the stranger for its own consumer's cursor: it answers, and it can be made to give up its
    own consumer. -/
theorem stranger_refused_iff {k' C' : Nat} (before calls : List Call) {c : Cursor}
    {granting : EventStream k' C'}
    (hgranted : (booked k' C' before).stream.register = .ok (c, granting)) :
    let t := booked k C calls
    (t.stream.Refuses c ↔
      ¬ ((∃ d ∈ t.book.live, d.slot = c.slot) ∧
        t.book.SameEndings (booked k' C' before).book c.slot)) ∧
    (¬ t.stream.Refuses c →
      c ∈ t.book.live ∧ ∃ freed report, t.stream.unregister c = .ok (freed, report) ∧
        freed.consumer? c = none) := by
  intro t
  have hother := (kept_booked k' C' before).ticket_of_register hgranted
  have hkept : Booked.Kept ⟨t.stream, t.book⟩ := kept_booked k C calls
  constructor
  · rw [hkept.refuses_iff, hkept.mem_live_iff, hother, ofNat_eq_ofNat_iff]
    exact Iff.rfl
  · intro haccepted
    rw [hkept.refuses_iff, Decidable.not_not] at haccepted
    refine ⟨haccepted, ?_⟩
    obtain ⟨freed, report, hok, -⟩ := hkept.unregister haccepted
    obtain ⟨-, -, hconsumers⟩ := unregister_ok hok
    refine ⟨freed, report, hok, ?_⟩
    rw [hconsumers, if_pos rfl]

/-- The other stream has had a cursor given up at its first place, and this one has not: the stranger
    is refused. -/
theorem stranger_refused_reused :
    let before : List Call := [.ask .register, .drop ⟨0, 0⟩]
    let t := booked 2 1 [.ask .register, .ask (.push ⟨7, .keyDown .dit⟩)]
    (∃ granting, (booked 2 3 before).stream.register = .ok (⟨0, 1⟩, granting)) ∧
      t.book.live = [⟨0, 0⟩] ∧ t.stream.Refuses ⟨0, 1⟩ := by
  intro before t
  have hgranted : (booked 2 3 before).stream.register
      = .ok (⟨0, 1⟩, (booked 2 3 before).stream.seat 0 ⟨true, 1, 0, 0⟩) :=
    register_free (i := 0) rfl
  refine ⟨⟨_, hgranted⟩, rfl, ?_⟩
  apply (stranger_refused_iff before [.ask .register, .ask (.push ⟨7, .keyDown .dit⟩)] hgranted).1.mpr
  rintro ⟨-, hsame⟩
  revert hsame
  unfold Book.SameEndings
  decide

/-- **A stranger is honoured.**  Both streams have one consumer, at the first place.  This stream
    gives the other one's cursor the event that its own consumer has not read, and at its word
    unregisters its own consumer. -/
theorem stranger_honoured :
    let t := booked 2 1 [.ask .register, .ask (.push ⟨7, .keyDown .dit⟩)]
    (∃ granting, (booked 2 3 []).stream.register = .ok (⟨0, 0⟩, granting)) ∧
      ¬ t.stream.Refuses ⟨0, 0⟩ ∧ (t.stream.poll ⟨0, 0⟩).1 = some ⟨7, .keyDown .dit⟩ ∧
      t.stream.consumerCount = 1 ∧ (t.stream.close ⟨0, 0⟩).2.consumerCount = 0 := by
  intro t
  have hpoll : (t.stream.poll ⟨0, 0⟩).1 = some ⟨7, .keyDown .dit⟩ := by decide +kernel
  refine ⟨⟨_, register_free (i := 0) rfl⟩, ?_, hpoll, by decide +kernel, by decide +kernel⟩
  intro hrefuses
  rw [hrefuses.poll] at hpoll
  nomatch hpoll

end EventStream

end IambicKeyer
