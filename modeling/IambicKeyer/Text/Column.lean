/-
  Right-aligned columns: a text is filled up with spaces on its left until it is `width`
  characters wide, and a text that is wider than that is left alone.
-/

namespace IambicKeyer

namespace Text

/-- The text with spaces before it, at least `width` characters in all. -/
def rightAligned (width : Nat) (text : String) : String :=
  String.ofList (List.replicate (width - text.length) ' ') ++ text

theorem length_rightAligned (width : Nat) (text : String) :
    (rightAligned width text).length = max width text.length := by
  simp [rightAligned]; omega

/-- A time as monitor lines show it, ten characters wide. -/
def timeColumn (time : Int) : String := rightAligned 10 (toString time)

end Text

end IambicKeyer
