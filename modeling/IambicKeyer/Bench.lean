/-
  Bench runs: a keyer played by a script, on any clock.

  1. **The loop** waits for the next tick, stops if the script is over, and else samples the
     script and runs one tick of the keyer.  A wait that came late raises its fault even if
     the loop stops there.  At the end the keyer is reset, so the key is up, and late ticks are
     noted.
  2. **Ends.**  A loop on a clock that never gets anywhere does not end.  `Loop.run?` therefore
     counts rounds: it gives the effects of a loop that ends within `n` rounds, and a larger `n`
     gives the same effects.  On the bench's own clock `Loop.rounds` are enough at every rate
     that the store accepts, for there each deadline lies at least a microsecond after the one
     before.
  3. **The bench** notes every change of the key line, lets the station take in the effects, and
     then has the monitor report everything.
-/
import IambicKeyer.Pacer
import IambicKeyer.Script
import IambicKeyer.Station

namespace IambicKeyer

/-! ## The keying loop -/

/-- The keying loop between two ticks. -/
structure Loop (κ : Type) where
  keyer : Keyer
  pacer : Pacer
  script : Script
  clock : κ

/-- How a round of the loop ends. -/
inductive Loop.Round (κ : Type) where
  /-- The script was not over: there is another round. -/
  | next (loop : Loop κ)
  /-- The script was over. -/
  | last (loop : Loop κ)

namespace Loop

variable {κ : Type}

/-- The loop before its first tick. -/
def ofScript (store : Store) (steps : List ScriptStep) (clock : κ) : Loop κ :=
  let keyer := Keyer.ofStore store
  ⟨keyer, Pacer.ofRate keyer.rate, ⟨steps, none⟩, clock⟩

variable [Clock κ]

/-- One round: wait, and run a tick unless the script is over. -/
def round (store : Store) (l : Loop κ) : Effects × Round κ :=
  let w := l.pacer.wait l.clock
  let waited : Effects := { faults := w.fault.toList }
  if w.now < l.script.finish then
    let (paddles, script) := l.script.sample w.now
    let (_, effects, keyer) := l.keyer.tick store w.now paddles
    (waited ++ effects, .next ⟨keyer, w.pacer.setRate keyer.rate, script, w.clock⟩)
  else (waited, .last { l with pacer := w.pacer, clock := w.clock })

/-- The effects of stopping, the release of the key first, and the clock afterwards. -/
def stop (l : Loop κ) : List Effects × κ :=
  let (now, clock) := Clock.read l.clock
  let (released, _) := l.keyer.reset now
  if l.pacer.late = 0 then ([released], clock)
  else
    let (now, clock) := Clock.read clock
    ([released, { notes := [⟨now, .warn, [toString l.pacer.late, " late ticks"]⟩] }], clock)

/-- At most `n` rounds and the stop, on top of the effects so far, the latest first; `none` if
    the script is not over by then. -/
def runFrom? (store : Store) : Nat → Loop κ → List Effects → Option (List Effects × κ)
  | 0, _, _ => none
  | n + 1, l, before =>
    match l.round store with
    | (effects, .next l') => runFrom? store n l' (effects :: before)
    | (effects, .last l') =>
      let (stopping, clock) := l'.stop
      some ((effects :: before).reverse ++ stopping, clock)

/-- The effects of a loop that ends within `n` rounds, step by step, and the clock at its end. -/
def run? (store : Store) (n : Nat) (l : Loop κ) : Option (List Effects × κ) :=
  l.runFrom? store n []

/-- Rounds after which a script is over on the bench's clock. -/
def rounds (l : Loop BenchClock) : Nat :=
  l.script.length.toNat + l.clock.slack + BenchClock.lastDelayed l.clock.delays + 3

end Loop

/-! ## The bench -/

namespace Bench

/-- The note that the transmitter's key line was set. -/
def lineNote (k : KeyChange) : Note :=
  ⟨k.time, .debug, ["TX ", if k.down then "down" else "up"]⟩

/-- The effects together with the notes on the key line. -/
def withLineNotes (e : Effects) : Effects :=
  { e with notes := e.notes ++ e.keying.map lineNote }

/-- What a bench run leaves behind. -/
structure Result where
  /-- Every change of the key line. -/
  keying : List KeyChange
  clock : BenchClock
  reports : List Report
  host : Host

/-- Plays a script on a fresh host with one consumer, the monitor; `none` if the script never
    ends on this clock. -/
def play? (store : Store) (steps : List ScriptStep) (clock : BenchClock) : Option Result :=
  let fresh : Host := {}
  let registration := fresh.station.stream.register
  let opening := EventStream.registerReport registration
  match registration with
  | .error _ => some ⟨[], clock, [opening], fresh⟩
  | .ok (cursor, stream) => do
    let loop := Loop.ofScript store steps clock
    let (effects, clock) ← loop.run? store loop.rounds
    let station := { fresh.station with stream := stream }.absorbAll (effects.map withLineNotes)
    let (reports, host) := { fresh with station := station }.monitor cursor
    return ⟨effects.flatMap (·.keying), clock, opening :: reports, host⟩

end Bench

end IambicKeyer
