/-
  Reading a number from a word of a command line.

  The word is one or more decimal digits, with at most one plus sign in front and nothing else;
  leading zeros are allowed.  A number above the limit is no number.
-/

namespace IambicKeyer

namespace Text

/-- The value of a string of digits; `none` if it is empty or anything else is in it. -/
def digits? (cs : List Char) : Option Nat :=
  if cs ≠ [] ∧ cs.all Char.isDigit then
    some (cs.foldl (fun n c => 10 * n + (c.toNat - '0'.toNat)) 0)
  else none

/-- The number that a word stands for, if it is not above `limit`. -/
def number? (limit : Nat) (word : String) : Option Nat :=
  let digits := match word.toList with
    | '+' :: rest => rest
    | cs => cs
  (digits? digits).filter (· ≤ limit)

example : number? 65535 "+007" = some 7 ∧ number? 65535 "65536" = none ∧
    number? 65535 "++5" = none ∧ number? 65535 "" = none := by decide +kernel

end Text

end IambicKeyer
