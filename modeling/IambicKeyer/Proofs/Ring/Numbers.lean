/-
  Numbers in order, their words and their slots.

  What is written to a ring is numbered from zero on without end, and the words for the numbers start
  again from zero after the largest.  Both facts that a ring rests on are about two numbers of which
  neither is far ahead of the other, and hold wherever the numbers lie:

  1. numbers less than a ring apart lie in different slots (`index_ne`);

  2. the difference of the words is the distance of the numbers (`toNat_sub_ofNat`).
-/
import IambicKeyer.Ring

namespace IambicKeyer

namespace Ring

variable {k i j n : Nat}

/-! ## Words -/

theorem toNat_ofNat (h : n < 4294967296) : (UInt32.ofNat n).toNat = n :=
  UInt32.toNat_ofNat_of_lt' h

theorem ofNat_succ (n : Nat) : UInt32.ofNat n + 1 = UInt32.ofNat (n + 1) := by
  rw [UInt32.ofNat_add]
  rfl

theorem add_ofNat_succ (i : UInt32) (n : Nat) :
    i + UInt32.ofNat (n + 1) = i + 1 + UInt32.ofNat n := by
  rw [Nat.add_comm, UInt32.ofNat_add, ← UInt32.add_assoc]
  rfl

/-- **The distance of two numbers in order**, if there are words enough for it. -/
theorem toNat_sub_ofNat (hij : i ≤ j) (hfew : j < i + 4294967296) :
    (UInt32.ofNat j - UInt32.ofNat i).toNat = j - i := by
  rw [UInt32.toNat_sub, UInt32.toNat_ofNat', UInt32.toNat_ofNat']
  omega

/-! ## Slots -/

/-- A number less than a ring ahead lies in another slot. -/
theorem index_add_ne (hpos : 0 < n) (hnear : n < size k) (hfew : n < 4294967296) (i : UInt32) :
    index k (i + UInt32.ofNat n) ≠ index k i := by
  intro heq
  -- a ring that is too large for the words counts as one of order 32
  have hsmall : n < size (min k 32) := by
    rcases Nat.le_total k 32 with hle | hge
    · rw [Nat.min_eq_left hle]
      exact hnear
    · rw [Nat.min_eq_right hge]
      exact hfew
  have hround : size (min k 32) ∣ 4294967296 := size_dvd (Nat.min_le_right k 32)
  have hring : size (min k 32) ∣ size k := Nat.pow_dvd_pow 2 (Nat.min_le_left k 32)
  have hsum : (i + UInt32.ofNat n).toNat = (i.toNat + n) % 4294967296 := by
    rw [UInt32.toNat_add, toNat_ofNat hfew]
  have hmod : (i.toNat + n) % size (min k 32) = i.toNat % size (min k 32) := by
    have hval : (i + UInt32.ofNat n).toNat % size k = i.toNat % size k := congrArg Fin.val heq
    rw [← Nat.mod_mod_of_dvd (i.toNat + n) hround, ← hsum, ← Nat.mod_mod_of_dvd _ hring, hval,
      Nat.mod_mod_of_dvd _ hring]
  have hzero : (i.toNat + n - i.toNat) % size (min k 32) = 0 := Nat.sub_mod_eq_zero_of_mod_eq hmod
  rw [Nat.add_sub_cancel_left, Nat.mod_eq_of_lt hsmall] at hzero
  omega

/-- **Two numbers less than a ring apart lie in different slots.** -/
theorem index_ne (hij : i < j) (hnear : j < i + size k) (hfew : j < i + 4294967296) :
    index k (UInt32.ofNat i) ≠ index k (UInt32.ofNat j) := by
  obtain ⟨n, rfl⟩ := Nat.exists_eq_add_of_le (Nat.le_of_lt hij)
  rw [UInt32.ofNat_add]
  exact (index_add_ne (by omega) (by omega) (by omega) (UInt32.ofNat i)).symm

/-- A ring further on it is the same slot again. -/
theorem index_ofNat_add_size (hk : k ≤ 32) (i : Nat) :
    index k (UInt32.ofNat (i + size k)) = index k (UInt32.ofNat i) := by
  apply Fin.ext
  show (UInt32.ofNat (i + size k)).toNat % size k = (UInt32.ofNat i).toNat % size k
  rw [UInt32.toNat_ofNat', UInt32.toNat_ofNat', Nat.mod_mod_of_dvd _ (size_dvd hk),
    Nat.mod_mod_of_dvd _ (size_dvd hk), Nat.add_mod_right]

end Ring

end IambicKeyer
