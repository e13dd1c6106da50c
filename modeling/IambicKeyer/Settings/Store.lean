/-
  The store that holds the settings in force.

  A WRITE changes some of the fields and nothing else; it is checked before it touches the
  store, so a refused write leaves every field as it was.  Each write that goes through moves
  the store's generation on by one.  The generation is a 16-bit number and comes round again
  after 65536 writes; a reader that remembers the generation of its copy sees from it whether
  the copy is out of date, as long as it looks before a whole round of writes has gone by.

  Replacing all keying settings at once is one write: one generation, and one report.
-/
import IambicKeyer.Report
import IambicKeyer.Settings

namespace IambicKeyer

/-- The pins that the paddles and the transmitter are wired to. -/
structure Pins where
  dit : Nat := 5
  dah : Nat := 4
  tx : Nat := 6
  deriving DecidableEq, Inhabited

/-- Every pin number exists. -/
def Pins.check (p : Pins) : Except SettingsError Unit := do
  Limit.ditPin.check p.dit
  Limit.dahPin.check p.dah
  Limit.txPin.check p.tx

/-- The settings in force, the wiring, and the number of writes so far modulo 65536. -/
structure Store where
  settings : Settings := {}
  pins : Pins := {}
  generation : UInt16 := 0
  deriving DecidableEq, Inhabited

/-- A change that a writer asks for. -/
inductive Write where
  | wpm (value : Nat)
  | weight (value : Nat)
  | window (value : Window)
  | tickRate (value : Nat)
  | release (mode : ReleaseMode)
  | memory (mode : MemoryMode)
  | squeeze (mode : SqueezeMode)
  | tieBreak (mode : TieBreak)
  | pins (value : Pins)
  /-- All keying settings at once. -/
  | all (settings : Settings)
  deriving DecidableEq

namespace Write

/-- May the write go through?  Modes always may. -/
def check : Write → Except SettingsError Unit
  | wpm value => Limit.wpm.check value
  | weight value => Limit.weight.check value
  | window value => value.check
  | tickRate value => Limit.tickRate.check value
  | pins value => value.check
  | all settings => settings.check
  | _ => .ok ()

/-- The keying settings after the write. -/
def onSettings (s : Settings) : Write → Settings
  | wpm value => { s with wpm := value }
  | weight value => { s with weight := value }
  | window value => { s with window := value }
  | tickRate value => { s with tickRate := value }
  | release mode => { s with release := mode }
  | memory mode => { s with memory := mode }
  | squeeze mode => { s with squeeze := mode }
  | tieBreak mode => { s with tieBreak := mode }
  | pins _ => s
  | all settings => settings

/-- The wiring after the write. -/
def onPins (p : Pins) : Write → Pins
  | pins value => value
  | _ => p

/-- What the diary learns of a write that moved the store to `generation`: only a replacement of
    all settings is reported. -/
def reports (generation : UInt16) : Write → List Report
  | all s =>
    [⟨.info, .settings, "config: applied wpm=" ++ toString s.wpm ++ " mode=" ++ s.release.name ++
      " memory=" ++ s.memory.name ++ " squeeze=" ++ s.squeeze.name ++
      " gen=" ++ toString generation.toNat⟩]
  | _ => []

end Write

namespace Store

/-- The store after a write that was let through. -/
def commit (s : Store) (w : Write) : Store :=
  ⟨w.onSettings s.settings, w.onPins s.pins, s.generation + 1⟩

/-- Carries out a write, or says why not. -/
def write (s : Store) (w : Write) : Except SettingsError (Store × List Report) := do
  w.check
  return (s.commit w, w.reports (s.commit w).generation)

/-- A write goes through exactly if its check does. -/
theorem write_eq (s : Store) (w : Write) :
    s.write w = match w.check with
      | .error e => .error e
      | .ok _ => .ok (s.commit w, w.reports (s.generation + 1)) := by
  unfold write commit
  cases w.check <;> rfl

end Store

end IambicKeyer
