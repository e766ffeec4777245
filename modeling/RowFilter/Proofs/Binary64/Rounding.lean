import RowFilter.Binary64.Rounding

/-! Rounding quotients to floating-point numbers. -/

namespace RowFilter

/-- Rounding adds one at most. -/
theorem roundHalfEven_le (num den : Nat) : roundHalfEven num den ≤ num / den + 1 := by
  simp only [roundHalfEven]
  split
  · omega
  · split <;> omega

namespace Binary64

private theorem log2_shiftLeft {n : Nat} (h : n ≠ 0) (shift : Nat) :
    (n <<< shift).log2 = n.log2 + shift := by
  induction shift with
  | zero => rfl
  | succ shift ih =>
    have hNe : n <<< shift ≠ 0 := by
      rw [Nat.shiftLeft_eq]
      exact Nat.mul_ne_zero h (Nat.ne_of_gt (Nat.two_pow_pos shift))
    rw [Nat.shiftLeft_succ, Nat.log2_two_mul hNe, ih, Nat.add_assoc]

/-- The whole part of a quotient, counted in the steps of its magnitude, has 53 bits at most. -/
theorem div_shift_lt (num den : Nat) :
    num / (den <<< ((num / den).log2 - 52)) < 2 * binade := by
  rw [Nat.shiftLeft_eq, ← Nat.div_div_eq_div_mul]
  refine Nat.div_lt_of_lt_mul (Nat.lt_of_lt_of_le Nat.lt_log2_self ?_)
  have hBinade : 2 * binade = 2 ^ 53 := by decide
  rw [hBinade, ← Nat.pow_add]
  exact Nat.pow_le_pow_right (by decide) (by omega)

/-- The magnitude nearest to a quotient is bounded by the leading bit of the quotient. -/
theorem nearestMagnitude_le (num den : Nat) :
    nearestMagnitude num den ≤ ((num / den).log2 - 52 + 2) * binade := by
  have hLt := div_shift_lt num den
  have hRound := roundHalfEven_le num (den <<< ((num / den).log2 - 52))
  simp only [nearestMagnitude, Nat.add_mul]
  omega

/-- Quotients below two to the power 1023 do not round to infinity. -/
theorem nearestMagnitude_lt_infinity {num den : Nat} (h : (num / den).log2 < 2097) :
    nearestMagnitude num den < infinity := by
  have hLe := nearestMagnitude_le num den
  have hFactor : (num / den).log2 - 52 + 2 ≤ 2046 := by omega
  exact Nat.lt_of_le_of_lt (Nat.le_trans hLe (Nat.mul_le_mul_right binade hFactor)) (by decide)

/-- The finite magnitudes are those below infinity. -/
theorem ofMagnitude_isFinite {negative : Bool} {magnitude : Nat} :
    (ofMagnitude negative magnitude).isFinite = true ↔ magnitude < infinity := by
  rw [isFinite, decide_eq_true_eq]
  change min magnitude infinity < infinity ↔ _
  omega

/-- Integers of at most 1023 bits are finite. -/
theorem ofDecimal_isFinite {significand : Nat} (negative : Bool)
    (h : significand.log2 < 1023) : (ofDecimal negative significand 0).isFinite = true := by
  by_cases hZero : significand = 0
  · rw [ofDecimal, if_pos hZero, ofMagnitude_isFinite]
    decide
  · rw [ofDecimal, if_neg hZero, if_neg (by decide), if_neg (by omega), if_pos (Int.le_refl 0),
      ofQuotient, ofMagnitude_isFinite]
    apply nearestMagnitude_lt_infinity
    have hPow : significand * Nat.pow 10 (Int.toNat 0) = significand := Nat.mul_one _
    rw [hPow, Nat.div_one, log2_shiftLeft hZero]
    omega

end Binary64

end RowFilter
