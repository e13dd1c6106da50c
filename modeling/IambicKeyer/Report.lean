/-
  Reports: the lines that the station hands to whoever keeps its diary.

  A report has a level, the part of the station it comes from and a text.  Reports are plain
  values, returned by the operations that make them; nothing here is printed.  A reader chooses
  how much to see with a `Verbosity`: nothing at all, or everything up to one level.
-/

namespace IambicKeyer

/-! ## Levels -/

/-- How much a line matters, the gravest first. -/
inductive Level where
  | error
  | warn
  | info
  | debug
  | trace
  deriving DecidableEq, Inhabited

namespace Level

/-- Place in the order, `0` for the gravest. -/
def rank : Level → Nat
  | error => 0
  | warn => 1
  | info => 2
  | debug => 3
  | trace => 4

/-- The level's name in capitals. -/
def name : Level → String
  | error => "ERROR"
  | warn => "WARN"
  | info => "INFO"
  | debug => "DEBUG"
  | trace => "TRACE"

/-- All levels, the gravest first. -/
def all : List Level := [error, warn, info, debug, trace]

/-- The level of a name in capitals. -/
def ofName? (s : String) : Option Level := all.find? (·.name == s)

end Level

/-! ## Reports -/

/-- The part of the station that a report comes from. -/
inductive Source where
  /-- The list of published events. -/
  | events
  /-- Notes written by the keying loop while it ran. -/
  | realtime
  /-- The event stream's own bookkeeping. -/
  | stream
  /-- The settings store. -/
  | settings
  /-- The host program. -/
  | host
  deriving DecidableEq, Inhabited

/-- The short name of a source in printed lines. -/
def Source.name : Source → String
  | events => "events"
  | realtime => "rt"
  | stream => "stream"
  | settings => "settings"
  | host => "keyer"

/-- One line of the diary. -/
structure Report where
  level : Level
  source : Source
  text : String
  deriving DecidableEq, Inhabited

/-- The report as a printed line. -/
def Report.line (r : Report) : String :=
  "[" ++ r.level.name ++ " " ++ r.source.name ++ "] " ++ r.text

/-- How much of the diary to keep: nothing, or all lines up to a level. -/
inductive Verbosity where
  | silent
  | upTo (level : Level)
  deriving DecidableEq

namespace Verbosity

/-- Is a line of this level kept? -/
def keeps : Verbosity → Level → Bool
  | silent, _ => false
  | upTo most, l => l.rank ≤ most.rank

/-- Reads `off` or a level's name, in small or capital letters. -/
def ofName? (s : String) : Option Verbosity :=
  let capitals := s.map Char.toUpper
  if capitals == "OFF" then some silent else (Level.ofName? capitals).map upTo

end Verbosity

end IambicKeyer
