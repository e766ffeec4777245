import Mathlib.Tactic.ByContra
import RowFilter.Decimal.Shortest
import RowFilter.Proofs.Binary64.Rounding

/-! The interval of the reals that round to a magnitude. Every quotient within
the interval rounds to the magnitude, also at the ends of a binade, where the
steps below are half as wide as those above. -/

namespace RowFilter

/-- A number is nearest to a quotient if it is half a unit away at most, and
less than that if it is odd. -/
theorem roundHalfEven_eq {num den n : Nat} (hLow : 2 * (n * den) ≤ 2 * num + den)
    (hHigh : 2 * num ≤ 2 * (n * den) + den)
    (hOdd : n % 2 = 1 → 2 * (n * den) < 2 * num + den ∧ 2 * num < 2 * (n * den) + den)
    (hDen : 0 < den) : roundHalfEven num den = n := by
  have hSplit := Nat.div_add_mod' num den
  have hRest := Nat.mod_lt num hDen
  have hQuotient : num / den = n ∨ num / den + 1 = n := by
    by_cases hLarge : n + 1 ≤ num / den
    · have hLe := Nat.mul_le_mul_right den hLarge
      rw [Nat.add_mul] at hLe
      omega
    · by_cases hSmall : num / den + 2 ≤ n
      · have hLe := Nat.mul_le_mul_right den hSmall
        rw [Nat.add_mul] at hLe
        omega
      · omega
  simp only [roundHalfEven]
  rcases hQuotient with rfl | rfl
  · split
    · rfl
    · split <;> omega
  · rw [Nat.add_mul] at hLow hHigh hOdd
    split
    · omega
    · split <;> omega

namespace Binary64

/-- Magnitudes of the lowest two binades are their own value. -/
theorem units_of_lt {magnitude : Nat} (h : magnitude < 2 * binade) : units magnitude = magnitude := by
  unfold units
  split
  · rfl
  · next hLe =>
    have hDiv : magnitude / binade = 1 := by
      simp only [binade] at *
      omega
    have hMod : binade + magnitude % binade = magnitude := by
      simp only [binade] at *
      omega
    rw [hDiv, hMod]
    rfl

theorem step_of_lt {magnitude : Nat} (h : magnitude < 2 * binade) : step magnitude = 1 := by
  have hDiv : magnitude / binade - 1 = 0 := by
    simp only [binade] at *
    omega
  rw [step, hDiv]
  rfl

/-- An interval contains the quotients between its ends, and its ends only if it is closed. -/
theorem Interval.contains_iff {i : Interval} {num den : Nat} :
    i.contains num den = true ↔ i.low * den ≤ num ∧ num ≤ i.high * den ∧
      (i.closed = false → i.low * den < num ∧ num < i.high * den) := by
  unfold contains
  cases i.closed with
  | false =>
    simp only [Bool.false_eq_true, if_false, Bool.and_eq_true, decide_eq_true_eq, true_implies]
    omega
  | true => simp

/-- Only the value of a quotient counts. -/
theorem Interval.contains_mul {i : Interval} {num den factor : Nat} (hPos : 0 < factor) :
    i.contains (num * factor) (den * factor) = i.contains num den := by
  rw [Bool.eq_iff_iff, contains_iff, contains_iff]
  simp only [← Nat.mul_assoc, Nat.mul_le_mul_right_iff hPos, Nat.mul_lt_mul_right hPos]

/-- The number of bits of a quotient. -/
theorem log2_div {num den : Nat} (bits : Nat) (hDen : 0 < den) (hLow : Nat.pow 2 bits * den ≤ num)
    (hHigh : num < Nat.pow 2 (bits + 1) * den) : (num / den).log2 = bits := by
  have hLe : Nat.pow 2 bits ≤ num / den := (Nat.le_div_iff_mul_le hDen).2 hLow
  have hPos : 0 < Nat.pow 2 bits := Nat.two_pow_pos bits
  rw [Nat.log2_eq_iff (by omega)]
  exact ⟨hLe, (Nat.div_lt_iff_lt_mul hDen).2 hHigh⟩

private theorem nearestMagnitude_of_shift {num den shift : Nat}
    (h : (num / den).log2 - 52 = shift) :
    nearestMagnitude num den = shift * binade + roundHalfEven num (den * Nat.pow 2 shift) := by
  rw [nearestMagnitude, h, Nat.shiftLeft_eq]
  rfl

private theorem nearestMagnitude_eq_of_lt {magnitude num den : Nat} (hDen : 0 < den)
    (hSmall : magnitude < 2 * binade)
    (h : (roundingInterval magnitude).contains (4 * num) den = true) :
    nearestMagnitude num den = magnitude := by
  obtain ⟨hLow, hHigh, hOpen⟩ := Interval.contains_iff.1 h
  simp only [roundingInterval, units_of_lt hSmall, step_of_lt hSmall, Nat.not_le_of_lt hSmall,
    and_false, if_false, Nat.mul_one, Nat.sub_mul, Nat.add_mul, Nat.mul_assoc,
    decide_eq_false_iff_not] at hLow hHigh hOpen
  have hLt : num < 2 * binade * den := by
    have hLe := Nat.mul_le_mul_right den (Nat.succ_le_of_lt hSmall)
    rw [Nat.succ_mul] at hLe
    omega
  have hShift : (num / den).log2 - 52 = 0 := by
    by_cases hZero : num / den = 0
    · rw [hZero]
      rfl
    · have hLog : (num / den).log2 < 53 :=
        (Nat.log2_lt hZero).2 ((Nat.div_lt_iff_lt_mul hDen).2 hLt)
      omega
  rw [nearestMagnitude_of_shift hShift, Nat.zero_mul, Nat.zero_add]
  apply roundHalfEven_eq
  all_goals
    rw [show Nat.pow 2 0 = 1 from rfl, Nat.mul_one]
    omega

/-- The exponent and the fraction of a magnitude above the lowest two binades. -/
theorem exists_exponent {magnitude : Nat} (h : 2 * binade ≤ magnitude) :
    ∃ shift fraction, magnitude = (shift + 2) * binade + fraction ∧ fraction < binade ∧
      units magnitude = (binade + fraction) * Nat.pow 2 (shift + 1) ∧
      step magnitude = Nat.pow 2 (shift + 1) ∧
      (magnitude % binade = 0 ∧ 2 * binade ≤ magnitude ↔ fraction = 0) := by
  have hDiv : 2 ≤ magnitude / binade := by
    simp only [binade] at *
    omega
  have hPred : magnitude / binade - 1 = magnitude / binade - 2 + 1 := by omega
  refine ⟨magnitude / binade - 2, magnitude % binade, ?_, Nat.mod_lt _ (by decide), ?_, ?_, ?_⟩
  · simp only [binade] at *
    omega
  · rw [units, if_neg (by simp only [binade] at *; omega), Nat.shiftLeft_eq, hPred]
    rfl
  · rw [step, Nat.shiftLeft_eq, Nat.one_mul, hPred]
    rfl
  · exact and_iff_left h

private theorem nearestMagnitude_of_binade {num den shift width : Nat} (hDen : 0 < den)
    (hWidth : den * Nat.pow 2 shift = width) (hLow : binade * width ≤ num)
    (hHigh : num < 2 * (binade * width)) :
    nearestMagnitude num den = shift * binade + roundHalfEven num width := by
  have hBits : Nat.pow 2 (52 + shift) * den = binade * width := by
    rw [← hWidth, show Nat.pow 2 (52 + shift) = binade * Nat.pow 2 shift from Nat.pow_add 2 52 shift]
    ac_rfl
  have hDouble : Nat.pow 2 (52 + shift + 1) * den = 2 * (binade * width) := by
    rw [← hBits, show Nat.pow 2 (52 + shift + 1) = Nat.pow 2 (52 + shift) * 2 from rfl,
      Nat.mul_right_comm, Nat.mul_comm]
  have hShift : (num / den).log2 - 52 = shift := by
    rw [log2_div (52 + shift) hDen (by rwa [hBits]) (by rwa [hDouble])]
    omega
  rw [nearestMagnitude_of_shift hShift, hWidth]

private theorem nearestMagnitude_eq_of_le {magnitude num den : Nat} (hDen : 0 < den)
    (hLarge : 2 * binade ≤ magnitude)
    (h : (roundingInterval magnitude).contains (4 * num) den = true) :
    nearestMagnitude num den = magnitude := by
  obtain ⟨shift, fraction, hMagnitude, hFraction, hUnits, hStep, hIff⟩ := exists_exponent hLarge
  obtain ⟨hLow, hHigh, hOpen⟩ := Interval.contains_iff.1 h
  have hOdd : (decide (magnitude % 2 = 0) = false) ↔ fraction % 2 = 1 := by
    simp only [binade] at hMagnitude
    rw [decide_eq_false_iff_not]
    omega
  simp only [roundingInterval, hUnits, hStep, hIff, hOdd] at hLow hHigh hOpen
  have hPos : 0 < den * Nat.pow 2 shift := Nat.mul_pos hDen (Nat.two_pow_pos shift)
  -- A step below the binade of the magnitude is half as wide as one within it.
  generalize hHalf : den * Nat.pow 2 shift = half at hPos
  have hWidth : Nat.pow 2 (shift + 1) * den = 2 * half := by
    rw [← hHalf, show Nat.pow 2 (shift + 1) = Nat.pow 2 shift * 2 from rfl]
    ac_rfl
  have hFractionLe := Nat.mul_le_mul_right (2 * half) (Nat.succ_le_of_lt hFraction)
  rw [Nat.succ_mul] at hFractionLe
  simp only [Nat.sub_mul, Nat.add_mul, Nat.mul_assoc, hWidth] at hLow hHigh hOpen
  by_cases hBelow : num < binade * (2 * half)
  · have hZero : fraction = 0 := by
      by_contra hNe
      have hLe := Nat.mul_le_mul_right (2 * half) (Nat.one_le_iff_ne_zero.2 hNe)
      rw [if_neg hNe] at hLow
      simp only [binade] at hBelow hLow
      omega
    subst hZero
    have hRound : roundHalfEven num half = 2 * binade := by
      simp only [binade, if_true] at *
      apply roundHalfEven_eq <;> omega
    rw [nearestMagnitude_of_binade hDen hHalf, hRound, hMagnitude]
    all_goals
      simp only [binade, if_true] at *
      omega
  · have hStep : (if fraction = 0 then 1 else 2) * (2 * half) ≤ 2 * (2 * half) :=
      Nat.mul_le_mul_right _ (by split <;> omega)
    have hRound : roundHalfEven num (2 * half) = binade + fraction := by
      apply roundHalfEven_eq
      · rw [Nat.add_mul]
        omega
      · rw [Nat.add_mul]
        omega
      · intro hOddSum
        have hOddFraction : fraction % 2 = 1 := by
          simp only [binade] at hOddSum
          omega
        have hStrict := hOpen hOddFraction
        rw [Nat.add_mul]
        omega
      · omega
    rw [nearestMagnitude_of_binade hDen ((Nat.mul_comm ..).trans hWidth), hRound, hMagnitude]
    all_goals
      simp only [binade] at *
      omega

/-- A quotient within the interval of a magnitude rounds to it. -/
theorem nearestMagnitude_eq {magnitude num den : Nat} (hDen : 0 < den)
    (h : (roundingInterval magnitude).contains (4 * num) den = true) :
    nearestMagnitude num den = magnitude := by
  by_cases hSmall : magnitude < 2 * binade
  · exact nearestMagnitude_eq_of_lt hDen hSmall h
  · exact nearestMagnitude_eq_of_le hDen (Nat.le_of_not_lt hSmall) h

end Binary64

end RowFilter
