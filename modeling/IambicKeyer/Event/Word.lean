/-
  Events as 32-bit words.

  An event is a tag and one byte of payload, and both fit in one word: the tag is its lowest
  byte, the payload the byte above it, and the upper half is zero.  `ofWord?` looks at the two
  lowest bytes only, reads a payload as leniently as the bytes of the payload's own type are
  read, and refuses a tag above `5`.  `ofWord?_toWord` says that no event is lost on the way.
-/
import IambicKeyer.Event

namespace IambicKeyer

namespace Event

/-- The number of the event's kind. -/
def tag : Event → Nat
  | paddles _ => 0
  | keyDown _ => 1
  | keyUp _ => 2
  | gap _ => 3
  | decoded _ => 4
  | queued _ => 5

/-- The one byte that an event carries. -/
def payload : Event → UInt8
  | paddles p => p.toByte
  | keyDown e => e.toByte
  | keyUp e => e.toByte
  | gap g => g.toByte
  | decoded code => code
  | queued e => e.toByte

/-- The event of a kind with a payload; `none` for an unknown kind. -/
def ofParts? (tag : Nat) (payload : UInt8) : Option Event :=
  match tag with
  | 0 => some (paddles (Paddles.ofByte payload))
  | 1 => some (keyDown (Element.ofByte payload))
  | 2 => some (keyUp (Element.ofByte payload))
  | 3 => some (gap (Gap.ofByte payload))
  | 4 => some (decoded payload)
  | 5 => some (queued (Element.ofByte payload))
  | _ => none

/-- Packs the event into one word: `tag + 256 * payload`. -/
def toWord (e : Event) : UInt32 :=
  UInt32.ofNat (e.tag + 256 * e.payload.toNat)

/-- Unpacks a word; what lies above the two lowest bytes is not looked at. -/
def ofWord? (w : UInt32) : Option Event :=
  ofParts? (w.toNat % 256) (UInt8.ofNat (w.toNat / 256))

/-! ## Nothing is lost in a word -/

theorem tag_lt (e : Event) : e.tag < 256 := by
  cases e <;> simp [tag]

@[simp] theorem ofParts?_tag_payload (e : Event) : ofParts? e.tag e.payload = some e := by
  cases e <;> simp [tag, payload, ofParts?]

theorem toNat_toWord (e : Event) : e.toWord.toNat = e.tag + 256 * e.payload.toNat := by
  have h := e.tag_lt
  have hp := e.payload.toNat_lt
  simp only [toWord, UInt32.toNat_ofNat']
  omega

@[simp] theorem ofWord?_toWord (e : Event) : ofWord? e.toWord = some e := by
  have h := e.tag_lt
  have hlow : (e.tag + 256 * e.payload.toNat) % 256 = e.tag := by omega
  have hhigh : (e.tag + 256 * e.payload.toNat) / 256 = e.payload.toNat := by omega
  rw [ofWord?, toNat_toWord, hlow, hhigh, UInt8.ofNat_toNat, ofParts?_tag_payload]

example : (Event.keyDown .dah).toWord = 0x0101 ∧ (Event.paddles .squeezed).toWord = 0x0300 := by
  decide
example : ofWord? 0xff = none ∧ ofWord? 0xffff0103 = some (.gap .word) := by decide

end Event

end IambicKeyer
