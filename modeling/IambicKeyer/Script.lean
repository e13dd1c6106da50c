/-
  Paddle scripts: what the bench plays instead of a hand.

  A script is a list of steps, each a paddle state and the milliseconds for which it is held.
  The first sample ANCHORS the script: its time is the script's time zero.  Before the anchor
  the script has not begun and its first step is shown; after the last step the paddles are
  idle.  Steps of no length are never shown.

  The end of a script is counted from the anchor, or from time zero while there is none.
-/
import IambicKeyer.Element

namespace IambicKeyer

/-- A paddle state and how long it is held. -/
structure ScriptStep where
  paddles : Paddles
  /-- Milliseconds. -/
  held : Nat
  deriving DecidableEq, Inhabited

/-- The length of the step in microseconds. -/
def ScriptStep.span (s : ScriptStep) : Int := s.held * 1000

/-- A script and the time of its first sample. -/
structure Script where
  steps : List ScriptStep
  anchor : Option Int := none
  deriving DecidableEq, Inhabited

namespace Script

/-- The paddles `offset` microseconds into the steps. -/
def paddlesAt : List ScriptStep → Int → Paddles
  | [], _ => .idle
  | s :: rest, offset =>
    if offset < s.span then s.paddles else paddlesAt rest (offset - s.span)

/-- The length of a list of steps in microseconds. -/
def totalSpan : List ScriptStep → Int
  | [] => 0
  | s :: rest => s.span + totalSpan rest

/-- The length of the whole script in microseconds. -/
def length (s : Script) : Int := totalSpan s.steps

/-- When the script is over. -/
def finish (s : Script) : Int := s.anchor.getD 0 + s.length

/-- The paddles at `now`; the first sample anchors the script. -/
def sample (now : Int) (s : Script) : Paddles × Script :=
  let anchor := s.anchor.getD now
  (paddlesAt s.steps (now - anchor), { s with anchor := some anchor })

end Script

/-! ## The first sample is the beginning, wherever the clock stands -/

example :
    let s : Script := { steps := [⟨⟨true, false⟩, 5⟩, ⟨⟨false, true⟩, 0⟩, ⟨.squeezed, 1⟩] }
    let (p, s) := s.sample 40
    p = ⟨true, false⟩ ∧ s.finish = 6040 ∧ (s.sample 5040).1 = .squeezed ∧
      (s.sample 6040).1 = .idle ∧ (s.sample 3).1 = ⟨true, false⟩ := by decide

end IambicKeyer
