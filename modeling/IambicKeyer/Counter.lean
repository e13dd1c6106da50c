/-
  32-bit counters, as the station keeps them.

  A counter that SATURATES stays at the largest value once it is there; a counter that WRAPS
  starts again from zero.  Below the largest value the two do not differ from counting.
-/

namespace IambicKeyer

namespace Counter

/-- The largest value of a counter. -/
def top : Nat := 4294967295

/-- One more, but never more than `top`. -/
def saturating (n : Nat) : Nat := min (n + 1) top

/-- One more, `0` after `top`. -/
def wrapping (n : Nat) : Nat := (n + 1) % (top + 1)

/-- A span of time as a counter value. -/
def ofSpan (span : Int) : Nat := min span.toNat top

theorem saturating_of_lt {n : Nat} (h : n < top) : saturating n = n + 1 := by
  unfold saturating; omega

theorem wrapping_of_lt {n : Nat} (h : n < top) : wrapping n = n + 1 := by
  unfold wrapping top at *; omega

/-- A counter that wraps shows the remainder of what it counts. -/
theorem wrapping_mod (n : Nat) : wrapping (n % 4294967296) = (n + 1) % 4294967296 := by
  unfold wrapping top; omega

end Counter

end IambicKeyer
