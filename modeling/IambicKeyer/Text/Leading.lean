/-
  The text at the start of a byte string.

  `leadingText` decodes UTF-8 from the first byte on and stops in front of the first byte that
  does not belong to a well-formed character: a text cut in the middle of a character loses just
  that character.
-/

namespace IambicKeyer

namespace Text

/-- The characters from byte `i` on, up to the first that is not well-formed. -/
def leadingChars (bytes : ByteArray) (i : Nat) : List Char :=
  match _here : bytes.utf8DecodeChar? i with
  | some c => c :: leadingChars bytes (i + c.utf8Size)
  | none => []
termination_by bytes.size - i
decreasing_by
  have hfits := ByteArray.le_size_of_utf8DecodeChar?_eq_some _here
  have hpos := c.utf8Size_pos
  omega

/-- The longest start of `bytes` that is well-formed text. -/
def leadingText (bytes : ByteArray) : String :=
  String.ofList (leadingChars bytes 0)

example : leadingChars ⟨#[0x6f, 0x6b, 0xc3]⟩ 0 = ['o', 'k'] := by decide +kernel

end Text

end IambicKeyer
