/-
  The station: the shared parts that the keyer's effects end up in.

  Published events go to the event stream, faults to the fault register, notes to the log.  None
  of them can refuse or delay the keyer: a full stream forgets its oldest events, a full log
  drops the note.
-/
import IambicKeyer.Event.Text
import IambicKeyer.Keyer
import IambicKeyer.Log
import IambicKeyer.Stream

namespace IambicKeyer

/-- A stream of order `k` with `C` consumers, the fault register, and the keying loop's log. -/
structure Station (k C : Nat) where
  stream : EventStream k C := .empty
  faults : FaultRegister := {}
  log : Log Log.standardOrder := .empty

namespace Station

variable {k C : Nat}

/-- Takes in the effects of one step. -/
def absorb (s : Station k C) (e : Effects) : Station k C :=
  ⟨s.stream.pushAll e.events, s.faults.raiseAll e.faults, s.log.noteAll e.notes⟩

/-- Takes in the effects of many steps in order. -/
def absorbAll (s : Station k C) (es : List Effects) : Station k C := es.foldl absorb s

/-- What the monitor says about a fault that nobody has taken note of. -/
def faultReports (r : FaultRegister) : List Report :=
  if r.active then
    [⟨.warn, .host, "fault " ++ r.last.code.name ++ " (data " ++ toString r.last.data ++
      ", total " ++ toString r.count ++ ")"⟩]
  else []

/-- What the monitor says about an event. -/
def eventReport (e : TimedEvent) : Report :=
  ⟨.info, .events, Text.timeColumn e.time ++ " us  " ++ e.event.text⟩

/-- What the monitor says about events that it has lost. -/
def lossReports (lost : Nat) : List Report :=
  if lost = 0 then []
  else [⟨.warn, .host, "event monitor lost " ++ toString lost ++ " events"⟩]

end Station

/-- The station of a host: a stream of 1024 events with 4 consumers and a log, and a second log
    for everything that is not the keying loop. -/
structure Host where
  station : Station 10 4 := {}
  background : Log Log.standardOrder := .empty

namespace Host

/-- The logs of a host. -/
inductive Channel where
  /-- The keying loop's own log. -/
  | keying
  | background
  deriving DecidableEq

/-- The log that a thread writes to when it does not name one: a host ties no thread to a
    processor, so none of them is the keying loop. -/
def standardChannel : Channel := .background

/-- The last pass of the monitor: all events, both logs, a fault if there is one, the losses,
    and then the monitor's cursor is given back. -/
def monitor (h : Host) (c : Cursor) : List Report × Host :=
  let (events, stream) := h.station.stream.drain c
  let (_, notes, log) := h.station.log.forward
  let (_, others, background) := h.background.forward
  let (closing, freed) := stream.close c
  (events.map Station.eventReport ++ notes ++ others ++ Station.faultReports h.station.faults ++
      Station.lossReports (stream.lostBy c) ++ closing,
    ⟨⟨freed, h.station.faults.clear, log⟩, background⟩)

end Host

end IambicKeyer
