/-
  Numbers and the slots they lie in.

  A ring of order `k` has `2 ^ k` slots.  What is written to it is numbered from `0` on with
  32-bit words, which start again from `0` after the largest; number `i` lies in slot
  `i % 2 ^ k`.  The size is a power of two so that the slots go on in turn there too (`index_succ`).
-/

namespace IambicKeyer

namespace Ring

/-- The number of slots of a ring of order `k`. -/
def size (k : Nat) : Nat := Nat.pow 2 k

theorem size_pos (k : Nat) : 0 < size k := Nat.two_pow_pos k

/-- The slot that number `i` lies in. -/
def index (k : Nat) (i : UInt32) : Fin (size k) := ⟨i.toNat % size k, Nat.mod_lt _ (size_pos k)⟩

/-- The order of a ring of `n` slots, if there is one. -/
def order? (n : Nat) : Option Nat := if size n.log2 = n then some n.log2 else none

/-- A ring of order at most 32 fits a whole number of times into the range of the numbers. -/
theorem size_dvd {k : Nat} (h : k ≤ 32) : size k ∣ 4294967296 :=
  Nat.pow_dvd_pow 2 h

/-- The slots go on in turn, also from the largest number to `0`. -/
theorem index_succ {k : Nat} (h : k ≤ 32) (i : UInt32) :
    (index k (i + 1)).val = ((index k i).val + 1) % size k := by
  have hwrap : (i + 1).toNat = (i.toNat + 1) % 4294967296 := UInt32.toNat_add i 1
  show (i + 1).toNat % size k = (i.toNat % size k + 1) % size k
  rw [hwrap, Nat.mod_mod_of_dvd _ (size_dvd h), Nat.mod_add_mod]

example : size 10 = 1024 ∧ order? 1024 = some 10 ∧ order? 1000 = none ∧ order? 0 = none := by
  decide +kernel

end Ring

end IambicKeyer
