/-
  How long the key has been up, and what that ends.

      key up        + 2 dits            + 5 dits
        |─────────────|───────────────────|──────
        | inside one  | character ended   | word ended

  The tick on which the key goes up is time `0`.  From then on every tick without a transition
  counts one, and each threshold is reported once, on the first tick that has reached it, at
  most one per tick and the character before the word.  The next transition starts over.  The
  unit may change at any time; ticks already counted are kept and measured against the new unit.
-/
import IambicKeyer.Counter
import IambicKeyer.Event

namespace IambicKeyer

namespace Gap

/-- The length of a gap in dits. -/
def dits : Gap → Nat
  | character => 2
  | word => 5

/-- The gap that a longer silence turns into. -/
def following : Gap → Option Gap
  | character => some word
  | word => none

end Gap

/-- Classifies the silence after each element. -/
structure GapTimer where
  /-- Ticks of a dit. -/
  unit : Nat
  /-- Ticks since the key went up, `0` while it is down. -/
  up : Nat := 0
  /-- The gap to report next; `none` while the key is down and after the word gap. -/
  pending : Option Gap := none
  deriving DecidableEq, Inhabited

namespace GapTimer

/-- A timer at rest; a unit of zero counts as one. -/
def ofUnit (unit : Nat) : GapTimer := { unit := max unit 1 }

/-- Measures against another unit from now on. -/
def setUnit (unit : Nat) (g : GapTimer) : GapTimer := { g with unit := max unit 1 }

/-- Forgets the silence under way. -/
def reset (g : GapTimer) : GapTimer := { g with up := 0, pending := none }

/-- One more tick of silence while `gap` is pending. -/
def wait (gap : Gap) (g : GapTimer) : Option Gap × GapTimer :=
  let up := Counter.saturating g.up
  if gap.dits * g.unit ≤ up then (some gap, { g with up := up, pending := gap.following })
  else (none, { g with up := up })

/-- One tick with what the key line did on it. -/
def tick (t : Option Transition) (g : GapTimer) : Option Gap × GapTimer :=
  match t with
  | some (.keyDown _) => (none, g.reset)
  | some (.keyUp _) => (none, { g.reset with pending := some .character })
  | none =>
    match g.pending with
    | none => (none, g)
    | some gap => g.wait gap

end GapTimer

example :
    let g := ((GapTimer.ofUnit 1).tick (some (.keyUp .dit))).2
    let (a, g) := g.tick none
    let (b, g) := g.tick none
    a = none ∧ b = some .character ∧ g.pending = some .word := by decide

end IambicKeyer
