/-
  The durations that settings within the limits call for.

  1. **Rounding** — a rounded quotient is off by at most half of the divisor (`natAbs_nearest`), it
     grows with the dividend and shrinks with the divisor.

  2. **Order** — a higher speed makes a dit shorter, a higher rate makes it longer, and a dah grows
     with the dit and with the weight.  Clamping and rounding both keep the order, so this needs no
     limits (`ditTicks_le_ditTicks`, `dahTicks_le_dahTicks`).

  3. **Within the limits** no clamp acts (`InLimits.timing_eq`), so that what is bounded in part 1 is
     the duration itself (`InLimits.rounded`).
-/
import IambicKeyer.Proofs.Settings.Limits
import IambicKeyer.Timing

namespace IambicKeyer

/-! ## Rounding -/

namespace Rounding

variable {num num' den den' : Nat}

/-- **The error is at most half of the divisor.** -/
theorem natAbs_nearest (num : Nat) (h : 0 < den) :
    2 * ((den * nearest num den : Nat) - num : Int).natAbs ≤ den := by
  have hsmall := two_mul_le_nearest num h
  have hlarge := nearest_le_two_mul num den
  rw [Nat.mul_assoc] at hsmall hlarge
  omega

/-- A quotient of at least one half is not rounded to zero. -/
theorem nearest_pos (hden : 0 < den) (h : den ≤ 2 * num) : 0 < nearest num den := by
  apply Nat.div_pos
  · omega
  · omega

theorem nearest_le_nearest_left (h : num ≤ num') (den : Nat) :
    nearest num den ≤ nearest num' den := by
  apply Nat.div_le_div_right
  omega

theorem nearest_le_nearest_right (num : Nat) (hden : 0 < den) (h : den ≤ den') :
    nearest num den' ≤ nearest num den := by
  have hlarge := nearest_le_two_mul num den'
  generalize nearest num den' = n at hlarge
  cases n with
  | zero => exact Nat.zero_le _
  | succ n =>
    -- half a divisor less is `2 * n + 1` halves of it, and those of the smaller one are fewer
    have hhalves : den * (2 * n + 1) ≤ den' * (2 * n + 1) := Nat.mul_le_mul_right _ h
    have hsplit : ∀ d, 2 * d * (n + 1) = d * (2 * n + 1) + d := by
      intro d
      rw [Nat.mul_comm 2 d, Nat.mul_assoc, Nat.mul_succ, Nat.mul_add, Nat.mul_add]
      omega
    rw [hsplit] at hlarge
    rw [nearest, Nat.le_div_iff_mul_le (by omega), Nat.mul_comm, hsplit]
    omega

end Rounding

namespace Settings

variable {s s' : Settings}

/-! ## Order -/

/-- **A dit** is not longer at a higher speed, nor at a lower rate. -/
theorem ditTicks_le_ditTicks (hwpm : s.wpm ≤ s'.wpm) (hrate : s'.tickRate ≤ s.tickRate) :
    s'.ditTicks ≤ s.ditTicks := by
  have hnum : 12 * max s'.tickRate 1 ≤ 12 * max s.tickRate 1 := by omega
  have hden : 10 * max s.wpm 1 ≤ 10 * max s'.wpm 1 := by omega
  have hquotient :=
    calc Rounding.nearest (12 * max s'.tickRate 1) (10 * max s'.wpm 1)
      _ ≤ Rounding.nearest (12 * max s.tickRate 1) (10 * max s'.wpm 1) :=
        Rounding.nearest_le_nearest_left hnum _
      _ ≤ Rounding.nearest (12 * max s.tickRate 1) (10 * max s.wpm 1) :=
        Rounding.nearest_le_nearest_right _ (by omega) hden
  rw [ditTicks, ditTicks]
  omega

/-- **A dah** is not shorter with a longer dit, nor with a higher weight. -/
theorem dahTicks_le_dahTicks (hdit : s.ditTicks ≤ s'.ditTicks) (hweight : s.weight ≤ s'.weight) :
    s.dahTicks ≤ s'.dahTicks := by
  have hnum : 3 * s.ditTicks * s.weight ≤ 3 * s'.ditTicks * s'.weight :=
    Nat.mul_le_mul (Nat.mul_le_mul_left 3 hdit) hweight
  have hquotient := Rounding.nearest_le_nearest_left hnum 50
  rw [dahTicks, dahTicks]
  omega

/-! ## Within the limits -/

/-- The durations as they are rounded, no value clamped. -/
def plainTiming (s : Settings) : Timing :=
  let dit := Rounding.nearest (12 * s.tickRate) (10 * s.wpm)
  ⟨dit, Rounding.nearest (3 * dit * s.weight) 50, dit, s.tickRate⟩

/-- **The durations are rounded correctly.** -/
structure Rounded (s : Settings) : Prop where
  /-- A dit is the whole number nearest to 1.2 seconds over the speed, -/
  dit : ((10 * s.wpm * s.timing.dit : Nat) - (12 * s.tickRate : Nat) : Int).natAbs ≤ 5 * s.wpm
  /-- and a dah the one nearest to three dits times the weight over 50: -/
  dah : ((50 * s.timing.dah : Nat) - (3 * s.timing.dit * s.weight : Nat) : Int).natAbs ≤ 25
  /-- it is three dits at weight 50, -/
  even : s.weight = 50 → s.timing.dah = 3 * s.timing.dit
  /-- and longer than a dit at any weight. -/
  longer : s.timing.dit < s.timing.dah
  unclamped : s.timing = s.plainTiming

/-- Three dits times the weight are at least 99 dits. -/
theorem InLimits.le_weighted (h : s.InLimits) :
    99 * s.ditTicks ≤ 3 * s.ditTicks * s.weight := by
  have hweight := Nat.mul_le_mul_left (3 * s.ditTicks) h.weight.1
  omega

/-- A speed within the limits is not clamped, -/
theorem InLimits.max_wpm (h : s.InLimits) : max s.wpm 1 = s.wpm := by
  obtain ⟨hslow, -⟩ := h.wpm
  exact Nat.max_eq_left (by omega)

/-- nor is a rate, -/
theorem InLimits.max_tickRate (h : s.InLimits) : max s.tickRate 1 = s.tickRate := by
  obtain ⟨hlow, -⟩ := h.tickRate
  exact Nat.max_eq_left (by omega)

/-- nor is the dit, -/
theorem InLimits.ditTicks_eq (h : s.InLimits) :
    s.ditTicks = Rounding.nearest (12 * s.tickRate) (10 * s.wpm) := by
  obtain ⟨hslow, hfast⟩ := h.wpm
  obtain ⟨hlow, -⟩ := h.tickRate
  have hpos : 0 < Rounding.nearest (12 * s.tickRate) (10 * s.wpm) :=
    Rounding.nearest_pos (by omega) (by omega)
  rw [ditTicks, h.max_tickRate, h.max_wpm, Nat.max_eq_left hpos]

/-- and neither is the dah. -/
theorem InLimits.dahTicks_eq (h : s.InLimits) :
    s.dahTicks = Rounding.nearest (3 * s.ditTicks * s.weight) 50 := by
  have hdit := s.ditTicks_pos
  have hweighted := h.le_weighted
  have hpos : 0 < Rounding.nearest (3 * s.ditTicks * s.weight) 50 :=
    Rounding.nearest_pos (by decide) (by omega)
  rw [dahTicks, Nat.max_eq_left hpos]

/-- **No clamp acts.** -/
theorem InLimits.timing_eq (h : s.InLimits) : s.timing = s.plainTiming := by
  rw [timing, plainTiming, h.max_tickRate, h.dahTicks_eq, h.ditTicks_eq]

/-- **The durations within the limits.** -/
theorem InLimits.rounded (h : s.InLimits) : s.Rounded where
  dit := by
    show ((10 * s.wpm * s.ditTicks : Nat) - _ : Int).natAbs ≤ _
    obtain ⟨hslow, -⟩ := h.wpm
    have hround := Rounding.natAbs_nearest (12 * s.tickRate) (show 0 < 10 * s.wpm by omega)
    rw [h.ditTicks_eq]
    omega
  dah := by
    show ((50 * s.dahTicks : Nat) - (3 * s.ditTicks * s.weight : Nat) : Int).natAbs ≤ 25
    have hround := Rounding.natAbs_nearest (3 * s.ditTicks * s.weight) (show 0 < 50 by decide)
    rw [h.dahTicks_eq]
    omega
  even := by
    intro heven
    show s.dahTicks = 3 * s.ditTicks
    rw [h.dahTicks_eq, heven, Nat.mul_comm (3 * s.ditTicks) 50]
    exact Rounding.nearest_mul_left _ (by decide)
  longer := by
    show s.ditTicks < s.dahTicks
    have hpos := s.ditTicks_pos
    have hweighted := h.le_weighted
    have hround := Rounding.two_mul_le_nearest (3 * s.ditTicks * s.weight) (by decide : 0 < 50)
    rw [h.dahTicks_eq]
    omega
  unclamped := h.timing_eq

end Settings

end IambicKeyer
