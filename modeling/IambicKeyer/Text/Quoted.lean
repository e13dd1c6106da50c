/-
  One character between apostrophes, as a diagnostics line shows it.

  The character codes are those of one byte (`0` to `255`).  The rule: a character that can be
  seen stands for itself; the four controls with a short name, the backslash and the apostrophe
  are written with a backslash; every other character is written by its code, `\u` and the
  lower-case hexadecimal digits between braces.  Not seen are the two control blocks, the
  no-break space (`a0`) and the soft hyphen (`ad`).  The quotation mark needs no backslash.
-/

namespace IambicKeyer

namespace Text

/-- Does the character with this code leave a mark of its own? -/
def isVisible (code : UInt8) : Bool :=
  (0x20 ≤ code && code < 0x7f) || (0xa0 < code && code != 0xad)

/-- The text of one character inside apostrophes. -/
def escaped (code : UInt8) : List Char :=
  if code = 0x00 then ['\\', '0']
  else if code = 0x09 then ['\\', 't']
  else if code = 0x0a then ['\\', 'n']
  else if code = 0x0d then ['\\', 'r']
  else if code = 0x27 then ['\\', '\'']
  else if code = 0x5c then ['\\', '\\']
  else if isVisible code then [Char.ofNat code.toNat]
  else ['\\', 'u', '\x7b'] ++ Nat.toDigits 16 code.toNat ++ ['\x7d']

/-- The character with this code between apostrophes. -/
def quoted (code : UInt8) : String :=
  String.ofList (['\''] ++ escaped code ++ ['\''])

example : escaped 0x4b = ['K'] ∧ escaped 0x22 = ['"'] ∧ escaped 0x27 = ['\\', '\''] := by decide
example : escaped 0xad = ['\\', 'u', '\x7b', 'a', 'd', '\x7d'] := by decide +kernel

end Text

end IambicKeyer
