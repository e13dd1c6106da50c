/-
  Durations in ticks.

  A dit at `w` words per minute lasts 1.2 / `w` seconds (the word PARIS is fifty dits long), so
  at `r` ticks per second it is `12 * r / (10 * w)` ticks, rounded to the nearest tick.  A dah is
  `3 * dit * weight / 50` ticks, rounded in the same way, which is three dits at weight `50`.
  The space after an element is one dit, whatever the weight.  No duration is shorter than one
  tick, and a speed or rate of zero counts as one.
-/
import IambicKeyer.Rounding
import IambicKeyer.Settings

namespace IambicKeyer

/-- The lengths of the elements and of the space after them, in ticks of one rate. -/
structure Timing where
  dit : Nat
  dah : Nat
  space : Nat
  /-- Ticks per second. -/
  rate : Nat
  deriving DecidableEq, Inhabited

/-- The ticks of a dit. -/
def Settings.ditTicks (s : Settings) : Nat :=
  max (Rounding.nearest (12 * max s.tickRate 1) (10 * max s.wpm 1)) 1

/-- The ticks of a dah. -/
def Settings.dahTicks (s : Settings) : Nat :=
  max (Rounding.nearest (3 * s.ditTicks * s.weight) 50) 1

/-- The durations that settings call for. -/
def Settings.timing (s : Settings) : Timing :=
  ⟨s.ditTicks, s.dahTicks, s.ditTicks, max s.tickRate 1⟩

namespace Timing

/-- How long the key is down for an element. -/
def mark (t : Timing) : Element → Nat
  | .dit => t.dit
  | .dah => t.dah

/-- A dit in microseconds, rounded down. -/
def ditMicros (t : Timing) : Nat := t.dit * 1000000 / t.rate

/-- A tick in microseconds, rounded down. -/
def tickMicros (t : Timing) : Nat := 1000000 / t.rate

end Timing

/-! ## No phase is empty -/

theorem Settings.ditTicks_pos (s : Settings) : 0 < s.ditTicks := by
  unfold ditTicks; omega

theorem Settings.dahTicks_pos (s : Settings) : 0 < s.dahTicks := by
  unfold dahTicks; omega

theorem Settings.mark_pos (s : Settings) (e : Element) : 0 < s.timing.mark e := by
  cases e
  · exact s.ditTicks_pos
  · exact s.dahTicks_pos

theorem Settings.space_pos (s : Settings) : 0 < s.timing.space := s.ditTicks_pos

example : ({} : Settings).timing = ⟨480, 1440, 480, 10000⟩ := by decide
example :
    ({ wpm := 20, tickRate := 1000, weight := 67 } : Settings).timing = ⟨60, 241, 60, 1000⟩ := by
  decide

end IambicKeyer
