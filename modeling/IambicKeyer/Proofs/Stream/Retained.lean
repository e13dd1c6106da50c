/-
  The ring of the event stream against the list of all events ever written.

  1. **`Retains`** — the representation: `head` is the length of the log as a 32-bit number, and
     every event that lies less than a ring behind the end of the log is in its slot, stamped with
     its number.  Writing keeps it (`Retains.push`): the event that is overwritten is the one that
     falls out of the ring, because numbers less than a ring apart lie in different slots.

  2. **`Retains.read?_slotOf`** — so each of these events can be read back, exactly as written.

  The numbers are 32-bit words.  A log of fewer than `2 ^ 32` events is one for which a number IS its
  place in the log; a ring that has no more slots than there are words retains the end of every log,
  also where the numbers have started again from zero.
-/
import IambicKeyer.Proofs.Ring.Numbers
import IambicKeyer.Stream

namespace IambicKeyer

/-- The time is a 64-bit number. -/
def TimedEvent.Fits (e : TimedEvent) : Prop :=
  -9223372036854775808 ≤ e.time ∧ e.time < 9223372036854775808

instance (e : TimedEvent) : Decidable e.Fits := inferInstanceAs (Decidable (_ ∧ _))

namespace EventStream

variable {k C : Nat} {s : EventStream k C} {log : List TimedEvent}

/-! ## What the ring retains -/

/-- **The ring holds the end of the log.** -/
structure Retains (s : EventStream k C) (log : List TimedEvent) : Prop where
  head : s.head = UInt32.ofNat log.length
  slot : ∀ i e, log[i]? = some e → log.length ≤ i + Ring.size k →
    s.slotOf (UInt32.ofNat i) = Slot.ofEvent (UInt32.ofNat i) e

theorem retains_empty : (empty : EventStream k C).Retains [] := by
  refine ⟨rfl, fun i e h => ?_⟩
  rw [List.getElem?_nil] at h
  nomatch h

/-- The slots after a write. -/
theorem slotOf_push (s : EventStream k C) (e : TimedEvent) (j : UInt32) :
    (s.push e).slotOf j
      = if Ring.index k s.head = Ring.index k j then Slot.ofEvent s.head e else s.slotOf j := by
  unfold slotOf push
  rw [Fin.getElem_fin, Vector.getElem_set]
  by_cases h : Ring.index k s.head = Ring.index k j
  · rw [if_pos h, if_pos (congrArg Fin.val h)]
  · rw [if_neg h, if_neg (fun hval => h (Fin.ext hval)), Fin.getElem_fin]

/-- **A write keeps the representation**, if the words are enough for the ring or for the log. -/
theorem Retains.push (h : s.Retains log) (e : TimedEvent)
    (hwords : k ≤ 32 ∨ log.length < 4294967296) : (s.push e).Retains (log ++ [e]) := by
  refine ⟨?_, fun i x hi hnear => ?_⟩
  · show s.head + 1 = UInt32.ofNat (log ++ [e]).length
    rw [h.head, List.length_append, UInt32.ofNat_add]
    rfl
  · rw [List.length_append, List.length_singleton] at hnear
    rw [slotOf_push, h.head]
    rcases Nat.lt_or_ge i log.length with hlt | hge
    · -- an older event that is still retained lies in another slot
      have hfew : log.length < i + 4294967296 := by
        rcases hwords with hk | hlen
        · have hsize : Ring.size k ≤ 4294967296 := Nat.le_of_dvd (by omega) (Ring.size_dvd hk)
          omega
        · omega
      rw [List.getElem?_append_left hlt] at hi
      rw [if_neg (Ring.index_ne hlt (by omega) hfew).symm]
      exact h.slot i x hi (by omega)
    · -- the last place of the longer log is the one just written
      have hlast : i < (log ++ [e]).length := (List.getElem?_eq_some_iff.mp hi).1
      rw [List.length_append, List.length_singleton] at hlast
      obtain rfl : i = log.length := by omega
      rw [List.getElem?_concat_length] at hi
      rw [if_pos rfl, Option.some.inj hi]

/-- A ring of order 32 at most retains the end of everything that is written to it. -/
theorem Retains.pushAll (hk : k ≤ 32) (h : s.Retains log) (es : List TimedEvent) :
    (s.pushAll es).Retains (log ++ es) := by
  induction es generalizing s log with
  | nil =>
    rw [List.append_nil]
    exact h
  | cons e es ih =>
    have hlater := ih (h.push e (.inl hk))
    rw [List.append_assoc] at hlater
    exact hlater

/-- **What is retained can be read back.** -/
theorem Retains.read?_slotOf (h : s.Retains log) (hfit : ∀ e ∈ log, e.Fits) {i : Nat}
    (hi : i < log.length) (hnear : log.length ≤ i + Ring.size k) :
    (s.slotOf (UInt32.ofNat i)).read? (UInt32.ofNat i) = some log[i] := by
  rw [h.slot i log[i] (List.getElem?_eq_getElem hi) hnear]
  obtain ⟨hlow, hhigh⟩ := hfit log[i] (List.getElem_mem hi)
  exact Slot.read?_ofEvent _ hlow hhigh

end EventStream

end IambicKeyer
