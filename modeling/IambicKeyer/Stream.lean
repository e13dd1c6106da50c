/-
  The event stream: one writer, a fixed number of consumers, and a ring of the last events.

  1. **Writing** (`push`) never waits and never looks at the consumers: the oldest event is
     overwritten.  Events are numbered, and `head` is the number of the next one; event `i` lies
     in the slot of the ring that belongs to `i`.  The ring keeps the last `2 ^ k` events.

  2. **Reading.**  A consumer holds a `Cursor`: a place in the consumer table and the ticket
     that the place had when the cursor was given out.  `poll` gives the next unread event.  A
     consumer that is further behind than the ring reaches back jumps to the oldest event that
     is left, and the events it has jumped over are counted as lost.  Consumers do not see one
     another.

  3. **The table** has `C` places.  `register` takes the first free one, `unregister` gives it
     back under a new ticket, so that an old cursor for it is known to be stale.

  Registering and unregistering are reported.
-/
import IambicKeyer.Report
import IambicKeyer.Ring
import IambicKeyer.Stream.Slot

namespace IambicKeyer

/-! ## Consumers -/

/-- One place of the consumer table. -/
structure Consumer where
  active : Bool := false
  /-- Counts the cursors that have been given up at this place. -/
  ticket : UInt32 := 0
  /-- The number of the next event to read. -/
  next : UInt32 := 0
  /-- Events jumped over so far. -/
  lost : Nat := 0
  deriving DecidableEq, Inhabited

/-- The right to read at a place of the consumer table. -/
structure Cursor where
  slot : Nat
  ticket : UInt32
  deriving DecidableEq, Inhabited

/-- Why the stream refuses a consumer. -/
inductive StreamError where
  /-- All places are taken. -/
  | capacityExceeded (places : Nat)
  /-- The cursor belongs to no registered consumer. -/
  | unknownCursor
  deriving DecidableEq

/-- The refusal in words. -/
def StreamError.message : StreamError → String
  | capacityExceeded places => "consumer capacity exceeded (max " ++ toString places ++ ")"
  | unknownCursor => "unknown or stale consumer cursor"

/-- A ring of order `k` with places for `C` consumers. -/
structure EventStream (k C : Nat) where
  slots : Vector Slot (Ring.size k)
  /-- The number of the next event. -/
  head : UInt32
  consumers : Vector Consumer C

namespace EventStream

variable {k C : Nat}

/-- A stream without events and without consumers. -/
def empty : EventStream k C :=
  ⟨Vector.replicate (Ring.size k) Slot.blank, 0, Vector.replicate C {}⟩

instance : Inhabited (EventStream k C) := ⟨empty⟩

/-! ## The ring -/

/-- The number of events that the ring keeps. -/
def capacity (_ : EventStream k C) : Nat := Ring.size k

/-- The number of places for consumers. -/
def places (_ : EventStream k C) : Nat := C

/-- The slot that event number `index` belongs to. -/
def slotOf (s : EventStream k C) (index : UInt32) : Slot :=
  s.slots[Ring.index k index]

/-- Writes an event over the oldest one. -/
def push (s : EventStream k C) (e : TimedEvent) : EventStream k C :=
  let i := Ring.index k s.head
  { s with slots := s.slots.set i.val (Slot.ofEvent s.head e) i.isLt, head := s.head + 1 }

/-- Writes the events of a list in order. -/
def pushAll (s : EventStream k C) (es : List TimedEvent) : EventStream k C :=
  es.foldl push s

/-- The event with number `index`, if the ring still keeps it. -/
def read? (s : EventStream k C) (index : UInt32) : Option TimedEvent :=
  let behind := (s.head - index).toNat
  if behind = 0 ∨ s.capacity < behind then none else (s.slotOf index).read? index

/-- The first event that can be read among the `n` from number `next` on, with the number after
    it and the count `lost` raised by the events that could not be read. -/
def firstReadable (s : EventStream k C) :
    Nat → UInt32 → Nat → Option TimedEvent × UInt32 × Nat
  | 0, next, lost => (none, next, lost)
  | n + 1, next, lost =>
    match (s.slotOf next).read? next with
    | some e => (some e, next + 1, lost)
    | none => firstReadable s n (next + 1) (lost + 1)

/-! ## The consumer table -/

/-- The consumer that a cursor belongs to, if it is still registered under the cursor's
    ticket. -/
def consumer? (s : EventStream k C) (c : Cursor) : Option Consumer :=
  s.consumers[c.slot]?.filter fun x => x.active && x.ticket == c.ticket

/-- The first place without a consumer. -/
def freePlace? (s : EventStream k C) : Option (Fin C) :=
  (List.finRange C).find? fun i => !s.consumers[i].active

/-- Takes the first free place and starts it at the head of the stream. -/
def register (s : EventStream k C) : Except StreamError (Cursor × EventStream k C) :=
  match s.freePlace? with
  | some i =>
    let ticket := s.consumers[i].ticket
    .ok (⟨i, ticket⟩, { s with consumers := s.consumers.set i ⟨true, ticket, s.head, 0⟩ i.isLt })
  | none => .error (.capacityExceeded C)

/-- What the diary learns of a registration. -/
def registerReport : Except StreamError (Cursor × EventStream k C) → Report
  | .ok (c, _) =>
    ⟨.debug, .stream, "stream: consumer registered in slot " ++ toString c.slot⟩
  | .error _ =>
    ⟨.warn, .stream, "stream: consumer refused, all " ++ toString C ++ " slots in use"⟩

/-- Gives the cursor's place back under a new ticket, and reports the losses it had counted. -/
def unregister (s : EventStream k C) (c : Cursor) :
    Except StreamError (EventStream k C × Report) :=
  match s.consumer? c with
  | some x =>
    let freed := { x with active := false, ticket := x.ticket + 1 }
    .ok ({ s with consumers := s.consumers.setIfInBounds c.slot freed },
      ⟨.debug, .stream, "stream: consumer slot " ++ toString c.slot ++ " unregistered (" ++
        toString x.lost ++ " events lost)"⟩)
  | none => .error .unknownCursor

/-- Gives the cursor's place back if it has one; a stale cursor is passed over. -/
def close (s : EventStream k C) (c : Cursor) : List Report × EventStream k C :=
  match s.unregister c with
  | .ok (freed, report) => ([report], freed)
  | .error _ => ([], s)

/-- The number of registered consumers. -/
def consumerCount (s : EventStream k C) : Nat := s.consumers.countP (·.active)

/-! ## Reading -/

/-- Events written since the consumer last read; more than the ring keeps if it has been
    overtaken. -/
def pending (s : EventStream k C) (x : Consumer) : Nat := (s.head - x.next).toNat

/-- Events that the consumer will never get: those jumped over, and those overwritten since. -/
def lost (s : EventStream k C) (x : Consumer) : Nat := x.lost + (s.pending x - s.capacity)

/-- Events waiting for a cursor, `0` for a cursor that is not live. -/
def lag (s : EventStream k C) (c : Cursor) : Nat := ((s.consumer? c).map s.pending).getD 0

/-- Events lost by a cursor, `0` for a cursor that is not live. -/
def lostBy (s : EventStream k C) (c : Cursor) : Nat := ((s.consumer? c).map s.lost).getD 0

/-- Events lost by the consumer at a place, `none` if the place is free. -/
def lostAt? (s : EventStream k C) (slot : Nat) : Option Nat :=
  (s.consumers[slot]?.filter (·.active)).map s.lost

/-- The next unread event of a cursor; `none` when there is none, or when the cursor is not
    live. -/
def poll (s : EventStream k C) (c : Cursor) : Option TimedEvent × EventStream k C :=
  match s.consumer? c with
  | none => (none, s)
  | some x =>
    let behind := s.pending x
    let skipped := behind - s.capacity
    let (e, next, lost) :=
      s.firstReadable (min behind s.capacity) (x.next + UInt32.ofNat skipped) (x.lost + skipped)
    let read := { x with next := next, lost := lost }
    (e, { s with consumers := s.consumers.setIfInBounds c.slot read })

/-- Polls until `n` events have come or there are no more. -/
def take (c : Cursor) : Nat → EventStream k C → List TimedEvent × EventStream k C
  | 0, s => ([], s)
  | n + 1, s =>
    match s.poll c with
    | (none, s) => ([], s)
    | (some e, s) =>
      let (es, s) := take c n s
      (e :: es, s)

/-- Polls until there are no more events. -/
def drain (s : EventStream k C) (c : Cursor) : List TimedEvent × EventStream k C :=
  s.take c (s.lag c)

end EventStream

/-! ## A ring of two with one consumer, and three events: the first is lost -/

example :
    let s : EventStream 1 1 := ⟨Vector.replicate 2 Slot.blank, 0, #v[{ active := true }]⟩
    let s := s.pushAll [⟨1, .keyDown .dit⟩, ⟨2, .keyUp .dit⟩, ⟨3, .gap .character⟩]
    s.lag ⟨0, 0⟩ = 3 ∧ s.lostBy ⟨0, 0⟩ = 1 ∧ (s.drain ⟨0, 0⟩).1.map (·.time) = [2, 3] := by decide

example : (EventStream.empty : EventStream 1 1).freePlace? = some 0 := by decide

end IambicKeyer
