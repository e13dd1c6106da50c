/-
  Log entries: a time, a level and up to 120 bytes of text.

  The text is kept as bytes in a field of fixed size, of which the first `length` count; the
  rest is whatever was there before.  A text that was cut in the middle of a character reads
  without that character.
-/
import IambicKeyer.Log.Buffer
import IambicKeyer.Report
import IambicKeyer.Text.Leading

namespace IambicKeyer

/-- Something the keying loop wants written down, its text in pieces. -/
structure Note where
  time : Int
  level : Level
  pieces : List String
  deriving DecidableEq

/-- The bytes that an entry has room for. -/
abbrev LogEntry.room : Nat := 120

/-- One entry of a log. -/
structure LogEntry where
  time : Int := 0
  level : Level := .info
  /-- The number of bytes that count. -/
  length : Nat := 0
  bytes : Buffer LogEntry.room := Vector.replicate LogEntry.room 0

namespace LogEntry

/-- The bytes that count. -/
def content (e : LogEntry) : ByteArray := ⟨e.bytes.toArray.extract 0 e.length⟩

/-- The text of the entry. -/
def message (e : LogEntry) : String := Text.leadingText e.content

/-- The entry written over with another text, of which as much is kept as there is room for. -/
def refill (e : LogEntry) (time : Int) (level : Level) (text : Array UInt8) : LogEntry :=
  ⟨time, level, min text.size room, e.bytes.overwrite 0 text⟩

end LogEntry

/-- The bytes of a note's text, cut to the room of an entry. -/
def Note.bytes (n : Note) : Array UInt8 :=
  (Writer.writeAll ⟨Vector.replicate LogEntry.room 0, 0⟩ n.pieces).written

end IambicKeyer
