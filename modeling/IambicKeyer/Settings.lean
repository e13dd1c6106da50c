/-
  The keying settings: what the operator may choose, and within which limits.

  1. **Modes** — what happens on release (`ReleaseMode`), which paddles are remembered
     (`MemoryMode`), what counts as a squeeze (`SqueezeMode`), and which element wins when both
     contacts close at once (`TieBreak`).  Each is also a small number; a number that names
     no mode reads as the mode's default.
  2. **`Window`** — the part of a phase, in percent of its length, in which the opposite paddle
     is looked at.
  3. **`Settings`** — one value of everything the keying depends on.  `check` accepts exactly
     the settings within the limits, and names the first limit that is broken.

  Settings outside the limits are values like any others: a machine may be built from them.
  Only the store refuses them.
-/
import IambicKeyer.Element

namespace IambicKeyer

/-! ## Modes -/

/-- What becomes of a remembered element when both paddles are open at the end of an element. -/
inductive ReleaseMode where
  /-- Mode A: it is forgotten. -/
  | modeA
  /-- Mode B: it is still sent. -/
  | modeB
  deriving DecidableEq, Inhabited

namespace ReleaseMode

/-- `0` is mode A, every other number mode B. -/
def ofCode : Nat → ReleaseMode
  | 0 => modeA
  | _ => modeB

/-- The mode in messages. -/
def name : ReleaseMode → String
  | modeA => "ModeA"
  | modeB => "ModeB"

end ReleaseMode

/-- Which paddles may be remembered while the other element is sent. -/
inductive MemoryMode where
  | none
  | ditOnly
  | dahOnly
  | both
  deriving DecidableEq, Inhabited

namespace MemoryMode

/-- `0`, `1` and `2` are the first three modes, every other number is `both`. -/
def ofCode : Nat → MemoryMode
  | 0 => none
  | 1 => ditOnly
  | 2 => dahOnly
  | _ => both

/-- The mode in messages, where a dit is called a dot. -/
def name : MemoryMode → String
  | none => "None"
  | ditOnly => "DotOnly"
  | dahOnly => "DahOnly"
  | both => "DotAndDah"

/-- May `e` be remembered? -/
def remembers : MemoryMode → Element → Bool
  | none, _ => false
  | ditOnly, e => e == .dit
  | dahOnly, e => e == .dah
  | both, _ => true

end MemoryMode

/-- When two closed paddles count as a squeeze. -/
inductive SqueezeMode where
  /-- Only if the opposite paddle was seen inside the window of the element. -/
  | latchOff
  /-- Whenever both are closed at the end of the element. -/
  | latchOn
  deriving DecidableEq, Inhabited

namespace SqueezeMode

/-- `1` is `latchOn`, every other number `latchOff`. -/
def ofCode : Nat → SqueezeMode
  | 1 => latchOn
  | _ => latchOff

/-- The mode in messages. -/
def name : SqueezeMode → String
  | latchOff => "LatchOff"
  | latchOn => "LatchOn"

end SqueezeMode

/-- The element that starts when both contacts close on the same tick. -/
inductive TieBreak where
  | ditFirst
  | dahFirst
  deriving DecidableEq, Inhabited

namespace TieBreak

/-- `1` is `dahFirst`, every other number `ditFirst`. -/
def ofCode : Nat → TieBreak
  | 1 => dahFirst
  | _ => ditFirst

/-- The tie-break in messages. -/
def name : TieBreak → String
  | ditFirst => "DitFirst"
  | dahFirst => "DahFirst"

/-- The winner of the tie. -/
def winner : TieBreak → Element
  | ditFirst => .dit
  | dahFirst => .dah

end TieBreak

/-! ## The memory window -/

/-- A closed interval of percentages. -/
structure Window where
  start : Nat := 0
  stop : Nat := 100
  deriving DecidableEq, Inhabited

/-- Does a percentage lie in the window? -/
def Window.contains (w : Window) (percent : Nat) : Bool :=
  w.start ≤ percent && percent ≤ w.stop

/-! ## Limits -/

/-- The inclusive range of one parameter. -/
structure Limit where
  name : String
  low : Nat
  high : Nat
  deriving DecidableEq

namespace Limit

def wpm : Limit := ⟨"wpm", 5, 100⟩
def weight : Limit := ⟨"weight", 33, 67⟩
def windowStart : Limit := ⟨"mem_window_start_pct", 0, 100⟩
def windowStop : Limit := ⟨"mem_window_end_pct", 0, 100⟩
def tickRate : Limit := ⟨"tick_rate_hz", 1000, 10000⟩
def ditPin : Limit := ⟨"gpio_dit", 0, 45⟩
def dahPin : Limit := ⟨"gpio_dah", 0, 45⟩
def txPin : Limit := ⟨"gpio_tx", 0, 45⟩

end Limit

/-- Why a setting is refused. -/
inductive SettingsError where
  /-- The value lies outside the parameter's range. -/
  | outOfRange (limit : Limit) (value : Nat)
  /-- The window starts after it ends. -/
  | crossedWindow (window : Window)
  deriving DecidableEq

/-- The refusal in words. -/
def SettingsError.message : SettingsError → String
  | outOfRange limit value =>
    limit.name ++ " = " ++ toString value ++ " out of range " ++
      toString limit.low ++ "..=" ++ toString limit.high
  | crossedWindow window =>
    "memory window start " ++ toString window.start ++ "% is after end " ++
      toString window.stop ++ "%"

namespace Limit

/-- Accepts exactly the values from `low` to `high`. -/
def check (limit : Limit) (value : Nat) : Except SettingsError Unit :=
  if value < limit.low ∨ limit.high < value then
    .error (.outOfRange limit value)
  else .ok ()

theorem check_eq_ok_iff (limit : Limit) (value : Nat) :
    limit.check value = .ok () ↔ limit.low ≤ value ∧ value ≤ limit.high := by
  unfold check
  split
  · rename_i h
    constructor
    · intro h'; cases h'
    · intro h'; omega
  · rename_i h
    exact ⟨fun _ => by omega, fun _ => rfl⟩

end Limit

namespace Window

/-- Both edges are percentages. -/
def checkEdges (w : Window) : Except SettingsError Unit := do
  Limit.windowStart.check w.start
  Limit.windowStop.check w.stop

/-- The start does not lie after the end. -/
def checkOrder (w : Window) : Except SettingsError Unit :=
  if w.stop < w.start then .error (.crossedWindow w) else .ok ()

/-- A window that may be stored: two percentages in order. -/
def check (w : Window) : Except SettingsError Unit := do
  w.checkEdges
  w.checkOrder

end Window

/-! ## Settings -/

/-- Everything the keying depends on. -/
structure Settings where
  /-- Speed in words per minute. -/
  wpm : Nat := 25
  release : ReleaseMode := .modeB
  memory : MemoryMode := .both
  squeeze : SqueezeMode := .latchOff
  /-- Weight of a dah; `50` makes it three dits long. -/
  weight : Nat := 50
  window : Window := {}
  /-- Ticks per second. -/
  tickRate : Nat := 10000
  tieBreak : TieBreak := .ditFirst
  deriving DecidableEq, Inhabited

namespace Settings

/-- The default settings at a given speed. -/
def withWpm (wpm : Nat) : Settings := { wpm := wpm }

/-- Holds every parameter against its limit, in this order; the order of the window's edges is
    looked at last. -/
def check (s : Settings) : Except SettingsError Unit := do
  Limit.wpm.check s.wpm
  Limit.weight.check s.weight
  s.window.checkEdges
  Limit.tickRate.check s.tickRate
  s.window.checkOrder

end Settings

/-! ## The defaults are within the limits, and the first broken limit is the one named -/

example : ({} : Settings).check = .ok () := rfl
example : ({ wpm := 4, weight := 90 } : Settings).check = .error (.outOfRange Limit.wpm 4) := rfl
example : ({ window := ⟨70, 60⟩, tickRate := 1 } : Settings).check =
    .error (.outOfRange Limit.tickRate 1) := rfl

end IambicKeyer
