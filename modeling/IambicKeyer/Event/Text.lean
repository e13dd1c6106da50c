/-
  How an event reads on a monitor line.

  Every line starts with the kind in capitals, padded so that the element names line up.  A
  paddle state is two marks: `.` or `_` for the dit contact, `-` or `_` for the dah contact.
-/
import IambicKeyer.Event
import IambicKeyer.Text.Quoted

namespace IambicKeyer

/-- The two contacts as two marks, an open contact as `_`. -/
def Paddles.text (p : Paddles) : String :=
  (if p.dit then "." else "_") ++ (if p.dah then "-" else "_")

namespace Event

/-- The monitor text of an event. -/
def text : Event → String
  | paddles p => "PADDLE " ++ p.text
  | keyDown e => "KEY ON  " ++ e.name
  | keyUp e => "KEY OFF " ++ e.name
  | gap .character => "GAP char"
  | gap .word => "GAP word"
  | decoded code => "DECODED " ++ Text.quoted code
  | queued e => "MEMORY  " ++ e.name

example : (Event.paddles ⟨false, true⟩).text = "PADDLE _-" := by decide
example : (Event.keyUp .dah).text = "KEY OFF dah" := by decide

end Event

end IambicKeyer
