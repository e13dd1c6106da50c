/-
  The slots of the event stream.

  A slot is four 32-bit words: the index of the event it was written for, the two halves of the
  event's time, and the event itself as a word.  A slot is read FOR an index and gives nothing
  if it was last written for another one.  A time is kept as a 64-bit two's complement number,
  so `read?_ofEvent` holds for every time from `-2 ^ 63` up to, not including, `2 ^ 63`.

  A blank slot carries the largest index, and an idle paddle at time zero.
-/
import IambicKeyer.Event.Word

namespace IambicKeyer

/-! ## A time in two words -/

namespace TimeWords

/-- The lower half of a time. -/
def low (t : Int) : UInt32 := UInt32.ofNat (t % 4294967296).toNat

/-- The upper half of a time. -/
def high (t : Int) : UInt32 := UInt32.ofNat (t / 4294967296 % 4294967296).toNat

/-- The time of two halves, its highest bit counted as negative. -/
def join (low high : UInt32) : Int :=
  let n : Int := high.toNat * 4294967296 + low.toNat
  if n < 9223372036854775808 then n else n - 18446744073709551616

theorem low_toNat (t : Int) : ((low t).toNat : Int) = t % 4294967296 := by
  have hwrap : (low t).toNat = (t % 4294967296).toNat % 2 ^ 32 := UInt32.toNat_ofNat'
  omega

theorem high_toNat (t : Int) : ((high t).toNat : Int) = t / 4294967296 % 4294967296 := by
  have hwrap : (high t).toNat = (t / 4294967296 % 4294967296).toNat % 2 ^ 32 :=
    UInt32.toNat_ofNat'
  omega

/-- A 64-bit time survives being split. -/
theorem join_low_high {t : Int} (hlow : -9223372036854775808 ≤ t)
    (hhigh : t < 9223372036854775808) : join (low t) (high t) = t := by
  have hl := low_toNat t
  have hh := high_toNat t
  unfold join
  simp only [hl, hh]
  split <;> omega

end TimeWords

/-! ## Slots -/

/-- One place of the ring. -/
structure Slot where
  /-- The index of the event that the slot holds. -/
  stamp : UInt32
  timeLow : UInt32
  timeHigh : UInt32
  word : UInt32
  deriving DecidableEq

namespace Slot

/-- A slot that has never been written. -/
def blank : Slot := ⟨4294967295, 0, 0, 0⟩

instance : Inhabited Slot := ⟨blank⟩

/-- The slot written for event number `index`. -/
def ofEvent (index : UInt32) (e : TimedEvent) : Slot :=
  ⟨index, TimeWords.low e.time, TimeWords.high e.time, e.event.toWord⟩

/-- The event with this index, if the slot still holds it. -/
def read? (index : UInt32) (s : Slot) : Option TimedEvent :=
  if s.stamp = index then
    (Event.ofWord? s.word).map fun event => ⟨TimeWords.join s.timeLow s.timeHigh, event⟩
  else none

/-- A slot gives back what was written, for the index it was written for. -/
theorem read?_ofEvent (index : UInt32) {e : TimedEvent}
    (hlow : -9223372036854775808 ≤ e.time) (hhigh : e.time < 9223372036854775808) :
    (ofEvent index e).read? index = some e := by
  simp [read?, ofEvent, TimeWords.join_low_high hlow hhigh]

theorem read?_of_stamp_ne {index : UInt32} {s : Slot} (h : s.stamp ≠ index) :
    s.read? index = none := by
  simp [read?, h]

example : blank.read? 0 = none ∧ blank.read? 4294967295 = some ⟨0, .paddles .idle⟩ := by decide

end Slot

end IambicKeyer
