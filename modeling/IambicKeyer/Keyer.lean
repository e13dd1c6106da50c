/-
  The keyer: everything that happens on one tick.

      settings ──▶ machine ──▶ key line, events
      paddles  ──▶    │
                      └──▶ gap timer ──▶ events

  A tick is a function of the store, the time and the paddle sample.  It gives out `Effects`: the
  faults it raises, the notes it writes, the events it publishes and what it does to the key
  line, each list in the order in which things happened.  Where they go is not the keyer's
  business (see `Station`).

  1. The clock is looked at first.  If it shows an earlier time than the last tick had, that is a
     fault, and the last tick's time is used instead.
  2. The settings are taken over if the store has moved on.
  3. Events of one tick come in the order contacts, keying, memory, gap, and all bear the time
     of the tick.  Every keying event goes with a change of the key line.

  `reset` stops everything at once and releases the key if it is down.
-/
import IambicKeyer.Fault
import IambicKeyer.GapTimer
import IambicKeyer.Log.Entry
import IambicKeyer.Machine

namespace IambicKeyer

/-! ## Effects -/

/-- The key line is set to a level. -/
structure KeyChange where
  down : Bool
  time : Int
  deriving DecidableEq, Inhabited

/-- What a step of the keyer gives out. -/
structure Effects where
  faults : List Fault := []
  notes : List Note := []
  events : List TimedEvent := []
  keying : List KeyChange := []

namespace Effects

instance : Inhabited Effects := ⟨{}⟩

/-- One step's effects and then another's. -/
def append (a b : Effects) : Effects :=
  ⟨a.faults ++ b.faults, a.notes ++ b.notes, a.events ++ b.events, a.keying ++ b.keying⟩

instance : Append Effects := ⟨append⟩

/-- A transition at a time: its event and the change of the key line. -/
def ofTransition (time : Int) (t : Transition) : Effects :=
  { events := [⟨time, .ofTransition t⟩], keying := [⟨t.isDown, time⟩] }

end Effects

/-! ## The keyer -/

/-- The keyer's own state. -/
structure Keyer where
  machine : Machine
  gaps : GapTimer
  /-- The last paddle sample. -/
  paddles : Paddles := .idle
  /-- The time of the last tick. -/
  time : Option Int := none
  deriving DecidableEq, Inhabited

namespace Keyer

/-- A keyer at rest with the settings of the store. -/
def ofStore (store : Store) : Keyer :=
  let machine := Machine.ofSettings store.settings
  { machine := machine, gaps := GapTimer.ofUnit machine.timing.dit }

/-- Ticks per second. -/
def rate (k : Keyer) : Nat := k.machine.timing.rate

/-- Is the key down? -/
def isKeyDown (k : Keyer) : Bool := k.machine.isKeyDown

/-- The time to use for a tick at `now`, with what there is to say about it: never earlier than
    the last tick. -/
def checkClock (now : Int) (k : Keyer) : Int × Effects :=
  match k.time with
  | none => (now, {})
  | some last =>
    if now < last then
      let back := Counter.ofSpan (last - now)
      (last, { faults := [⟨.clockBackwards, back⟩],
               notes := [⟨last, .warn, ["clock went back ", toString back, " us"]⟩] })
    else (now, {})

/-- The note that new settings are in force. -/
def settingsNote (time : Int) (m : Machine) : Note :=
  ⟨time, .info, ["config: ", toString m.settings.wpm, " wpm, ", m.settings.release.name, ", dit ",
    toString m.timing.dit, " ticks @ ", toString m.timing.rate, " Hz"]⟩

/-- Takes over the settings of the store if they are new. -/
def sync (store : Store) (time : Int) (k : Keyer) : Effects × Keyer :=
  match k.machine.sync store with
  | (true, m) =>
    ({ notes := [settingsNote time m] },
      { k with machine := m, gaps := k.gaps.setUnit m.timing.dit })
  | (false, m) => ({}, { k with machine := m })

/-- The event that the contacts have changed, if they have. -/
def contactEvents (time : Int) (p : Paddles) (k : Keyer) : List TimedEvent :=
  if p = k.paddles then [] else [⟨time, .paddles p⟩]

/-- What machine and gap timer make of the paddle sample. -/
def advance (time : Int) (p : Paddles) (k : Keyer) : Output × Effects × Keyer :=
  let (out, machine) := k.machine.tick p
  let (gap, gaps) := k.gaps.tick out.transition
  let contacts : Effects := { events := k.contactEvents time p }
  let keying : Effects := (out.transition.map (Effects.ofTransition time)).getD {}
  let queued : Effects := { events := (out.queued.map (⟨time, .queued ·⟩)).toList }
  let ended : Effects := { events := (gap.map (⟨time, .gap ·⟩)).toList }
  (out, contacts ++ keying ++ queued ++ ended,
    { k with machine := machine, gaps := gaps, paddles := p })

/-- One tick at `now` with the paddles as sampled. -/
def tick (store : Store) (now : Int) (p : Paddles) (k : Keyer) : Output × Effects × Keyer :=
  let (time, regress) := k.checkClock now
  let (news, k) := { k with time := some time }.sync store time
  let (out, effects, k) := k.advance time p
  (out, regress ++ news ++ effects, k)

/-- Stops keying at once: machine and gap timer at rest, key up. -/
def reset (now : Int) (k : Keyer) : Effects × Keyer :=
  let released : Effects :=
    match k.machine.sending with
    | some s => if s.phase = .mark then Effects.ofTransition now (.keyUp s.element) else {}
    | none => {}
  (released, { k with machine := k.machine.reset, gaps := k.gaps.reset })

end Keyer

/-! ## A first tick with the dit paddle closed, and a tick that comes too early -/

example :
    let (_, first, k) := (Keyer.ofStore {}).tick {} 1000 ⟨true, false⟩
    let (_, second, _) := k.tick {} 400 .idle
    first.events = [⟨1000, .paddles ⟨true, false⟩⟩, ⟨1000, .keyDown .dit⟩] ∧
      first.keying = [⟨true, 1000⟩] ∧ second.faults = [⟨.clockBackwards, 600⟩] ∧
      second.events = [⟨1000, .paddles .idle⟩] := by decide

end IambicKeyer
