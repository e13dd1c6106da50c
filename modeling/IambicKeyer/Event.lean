/-
  What the keyer tells the rest of the station: one `Event` per thing that happened, with the
  time at which it happened.

  1. **`Transition`** — the key line goes down or up for an element; at most one per tick.
  2. **`Gap`** — a key-up interval has grown long enough to end a character or a word.
  3. **`Event`** — everything that is published: paddle contacts, keying, gaps, decoded
     characters, and an element queued in the paddle memory.
  4. **`TimedEvent`** — an event at a time in microseconds.

  Times are integers: the clock that supplies them may start anywhere, below zero included.
-/
import IambicKeyer.Element

namespace IambicKeyer

/-! ## Keying and gaps -/

/-- A change of the key line, with the element it starts or ends. -/
inductive Transition where
  | keyDown (e : Element)
  | keyUp (e : Element)
  deriving DecidableEq

namespace Transition

/-- The element that the transition belongs to. -/
def element : Transition → Element
  | keyDown e => e
  | keyUp e => e

/-- The level of the key line after the transition. -/
def isDown : Transition → Bool
  | keyDown _ => true
  | keyUp _ => false

end Transition

/-- What a long key-up interval ends. -/
inductive Gap where
  | character
  | word
  deriving DecidableEq, Inhabited

namespace Gap

/-- The byte that stands for a gap. -/
def toByte : Gap → UInt8
  | character => 0
  | word => 1

/-- Byte `1` is a word gap, every other byte a character gap. -/
def ofByte (b : UInt8) : Gap :=
  if b = 1 then word else character

@[simp] theorem ofByte_toByte (g : Gap) : ofByte g.toByte = g := by
  cases g <;> rfl

end Gap

/-! ## Events -/

/-- Something worth telling the listeners. -/
inductive Event where
  /-- The contacts changed to `p`. -/
  | paddles (p : Paddles)
  /-- The key went down at the start of `e`. -/
  | keyDown (e : Element)
  /-- The key went up at the end of `e`. -/
  | keyUp (e : Element)
  /-- The key has been up long enough to end a character or a word. -/
  | gap (g : Gap)
  /-- A decoder recognised the character with this code. -/
  | decoded (code : UInt8)
  /-- The paddle opposite to the element being sent was remembered. -/
  | queued (e : Element)
  deriving DecidableEq, Inhabited

namespace Event

/-- Does the event move the key line? -/
def isKeying : Event → Bool
  | keyDown _ => true
  | keyUp _ => true
  | _ => false

/-- The event that publishes a transition. -/
def ofTransition : Transition → Event
  | .keyDown e => keyDown e
  | .keyUp e => keyUp e

@[simp] theorem isKeying_ofTransition (t : Transition) : (ofTransition t).isKeying = true := by
  cases t <;> rfl

end Event

/-- An event and its time in microseconds. -/
structure TimedEvent where
  time : Int
  event : Event
  deriving DecidableEq, Inhabited

end IambicKeyer
