/-
  The bench program: `keyer [wpm]`.

  It plays a fixed script, the letters C and Q, at the given speed and a thousand ticks per
  second, on a clock that wakes exactly on time, and reports everything.  A first argument that
  is no number from `0` to `65535` counts as absent, and an absent one as 20 words per minute.
  A speed that the store refuses is reported, and the program ends with exit code 2.
-/
import IambicKeyer.Bench
import IambicKeyer.Text.Number

namespace IambicKeyer

namespace Program

/-- The letters C and Q: a squeeze that starts on the dah; then a held dah with the dit tapped. -/
def script : List ScriptStep :=
  [⟨⟨false, true⟩, 20⟩, ⟨⟨true, true⟩, 220⟩, ⟨⟨false, false⟩, 500⟩,
   ⟨⟨false, true⟩, 250⟩, ⟨⟨true, true⟩, 60⟩, ⟨⟨false, true⟩, 100⟩, ⟨⟨false, false⟩, 900⟩]

/-- The speed asked for on the command line. -/
def speed (args : List String) : Nat :=
  (args.head?.bind (Text.number? 65535)).getD 20

/-- The store that the program runs with. -/
def store (wpm : Nat) : Except SettingsError Store := do
  let (s, _) ← ({} : Store).write (.wpm wpm)
  let (s, _) ← s.write (.tickRate 1000)
  return s

/-- What the program does: its exit code and its reports. -/
structure Outcome where
  exitCode : Nat
  reports : List Report
  deriving DecidableEq

/-- Runs the program. -/
def run (args : List String) : Outcome :=
  match store (speed args) with
  | .error e => ⟨2, [⟨.error, .host, e.message⟩]⟩
  | .ok s =>
    match Bench.play? s script {} with
    | some r => ⟨0, r.reports⟩
    | none => ⟨1, []⟩

/-- The reports that are shown. -/
def shown (v : Verbosity) (o : Outcome) : List Report :=
  o.reports.filter (v.keeps ·.level)

/-- What is shown unless something else is asked for. -/
def standardVerbosity : Verbosity := .upTo .info

end Program

end IambicKeyer
