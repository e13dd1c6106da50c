/-
  Rounding a quotient to the nearest whole number.

  `nearest num den` is the whole number closest to `num / den`; a quotient half-way between two
  goes to the larger.  `two_mul_le_nearest` and `nearest_le_two_mul` bound the error by half of
  `den` on either side.
-/

namespace IambicKeyer

namespace Rounding

/-- `num / den`, rounded to the nearest whole number, halves up. -/
def nearest (num den : Nat) : Nat := (2 * num + den) / (2 * den)

/-- The rounded quotient is at most half too small. -/
theorem two_mul_le_nearest (num : Nat) {den : Nat} (h : 0 < den) :
    2 * num ≤ 2 * den * nearest num den + den := by
  have hlt : 2 * num + den < 2 * den * (nearest num den + 1) :=
    Nat.lt_mul_div_succ (2 * num + den) (by omega)
  rw [Nat.mul_add, Nat.mul_one] at hlt
  omega

/-- The rounded quotient is at most half too large. -/
theorem nearest_le_two_mul (num den : Nat) :
    2 * den * nearest num den ≤ 2 * num + den :=
  Nat.mul_div_le (2 * num + den) (2 * den)

/-- A whole quotient is not changed. -/
theorem nearest_mul_left (n : Nat) {den : Nat} (h : 0 < den) : nearest (den * n) den = n := by
  have hsplit : 2 * (den * n) + den = den + 2 * den * n := by rw [Nat.mul_assoc]; omega
  rw [nearest, hsplit, Nat.add_mul_div_left den n (by omega), Nat.div_eq_of_lt (by omega),
    Nat.zero_add]

example : nearest 7 2 = 4 ∧ nearest 12000 70 = 171 ∧ nearest 5 10 = 1 ∧ nearest 4 10 = 0 := by
  decide

end Rounding

end IambicKeyer
