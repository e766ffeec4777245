import RowFilter.Proofs.Decimal.Shortest

/-! Reading decimal numbers. A decimal number in the rounding interval of a
magnitude is read as that magnitude, also where its exponent is cut off: such
exponents lead beyond the largest finite magnitude or into the interval of
zero. -/

namespace RowFilter.Binary64

variable {magnitude significand : Nat} {exponent : Int}

private theorem high_lt {bits : Nat} (hFinite : magnitude < infinity) (hBits : 2101 ≤ bits) :
    (roundingInterval magnitude).high < Nat.pow 2 bits := by
  have hUnits := units_lt magnitude
  have hStep := step_pos magnitude
  have hHigh : (roundingInterval magnitude).high = 4 * units magnitude + 2 * step magnitude := rfl
  have hShift : magnitude / binade - 1 ≤ 2045 := by
    simp only [infinity, binade] at *
    omega
  calc (roundingInterval magnitude).high < 16 * binade * step magnitude := by
        simp only [binade] at *
        omega
    _ = Nat.pow 2 56 * Nat.pow 2 (magnitude / binade - 1) := by
        rw [step_eq]
        rfl
    _ = Nat.pow 2 (56 + (magnitude / binade - 1)) := (Nat.pow_add 2 56 _).symm
    _ ≤ Nat.pow 2 bits := Nat.pow_le_pow_right (by decide) (by omega)

private theorem significand_pos (hPos : 0 < magnitude)
    (h : (roundingInterval magnitude).contains (significand * (cell exponent).1)
      (cell exponent).2 = true) : 0 < significand := by
  apply Nat.pos_of_ne_zero
  rintro rfl
  have hLow := (Interval.contains_iff.1 h).1
  have hMul := Nat.mul_pos (low_add_step_le hPos).2 (cell_pos exponent).2
  omega

private theorem exponent_le (hSignificand : 0 < significand) (hFinite : magnitude < infinity)
    (h : (roundingInterval magnitude).contains (significand * (cell exponent).1)
      (cell exponent).2 = true) : exponent ≤ 400 := by
  apply Int.not_lt.1
  intro hLarge
  have hHigh := (Interval.contains_iff.1 h).2.1
  rw [cell, if_pos (by omega), Nat.mul_one] at hHigh
  generalize hBits : (1076 : Nat) = bits at hHigh
  rw [Nat.shiftLeft_eq] at hHigh
  have hPow : Nat.pow 2 (3 * exponent.toNat) ≤ Nat.pow 10 exponent.toNat := pow_two_le (by omega)
  apply Nat.lt_irrefl (roundingInterval magnitude).high
  calc (roundingInterval magnitude).high < Nat.pow 2 (3 * exponent.toNat + bits) :=
        high_lt hFinite (by omega)
    _ = Nat.pow 2 (3 * exponent.toNat) * Nat.pow 2 bits := Nat.pow_add 2 _ bits
    _ ≤ Nat.pow 10 exponent.toNat * Nat.pow 2 bits := Nat.mul_le_mul_right _ hPow
    _ ≤ significand * (Nat.pow 10 exponent.toNat * Nat.pow 2 bits) :=
      Nat.le_mul_of_pos_left _ hSignificand
    _ ≤ (roundingInterval magnitude).high := hHigh

private theorem le_exponent (hPos : 0 < magnitude)
    (h : (roundingInterval magnitude).contains (significand * (cell exponent).1)
      (cell exponent).2 = true) : -((significand.log2 : Int) + 400) ≤ exponent := by
  apply Int.not_lt.1
  intro hSmall
  have hLow := (Interval.contains_iff.1 h).1
  rw [cell, if_neg (by omega)] at hLow
  generalize hBits : (1076 : Nat) = bits at hLow
  rw [Nat.shiftLeft_eq, Nat.one_mul] at hLow
  have hPow : Nat.pow 2 (significand.log2 + 1 + bits) ≤ Nat.pow 10 (-exponent).toNat :=
    pow_two_le (by omega)
  apply Nat.lt_irrefl (Nat.pow 10 (-exponent).toNat)
  calc Nat.pow 10 (-exponent).toNat
      ≤ (roundingInterval magnitude).low * Nat.pow 10 (-exponent).toNat :=
        Nat.le_mul_of_pos_left _ (low_add_step_le hPos).2
    _ ≤ significand * Nat.pow 2 bits := hLow
    _ < Nat.pow 2 (significand.log2 + 1) * Nat.pow 2 bits :=
      Nat.mul_lt_mul_of_pos_right Nat.lt_log2_self (Nat.two_pow_pos _)
    _ = Nat.pow 2 (significand.log2 + 1 + bits) := (Nat.pow_add 2 _ bits).symm
    _ ≤ Nat.pow 10 (-exponent).toNat := hPow

private theorem log2_significand_lt {bits shift : Nat} (hFinite : magnitude < infinity)
    (hExponent : -347 ≤ exponent) (hBits : 2101 ≤ bits) (hShift : 1388 ≤ shift)
    (h : (roundingInterval magnitude).contains (significand * (cell exponent).1)
      (cell exponent).2 = true) : significand.log2 < bits + shift := by
  by_cases hZero : significand = 0
  · rw [hZero, Nat.log2_zero]
    omega
  obtain ⟨hNum, hDen⟩ := cell_pos exponent
  have hDenLe : (cell exponent).2 ≤ Nat.pow 2 shift := by
    unfold cell
    split
    · exact Nat.one_le_two_pow
    · exact pow_ten_le (by omega)
  rw [Nat.log2_lt hZero]
  calc significand ≤ significand * (cell exponent).1 := Nat.le_mul_of_pos_right _ hNum
    _ ≤ (roundingInterval magnitude).high * (cell exponent).2 := (Interval.contains_iff.1 h).2.1
    _ < Nat.pow 2 bits * (cell exponent).2 :=
      Nat.mul_lt_mul_of_pos_right (high_lt hFinite hBits) hDen
    _ ≤ Nat.pow 2 bits * Nat.pow 2 shift := Nat.mul_le_mul_left _ hDenLe
    _ = Nat.pow 2 (bits + shift) := (Nat.pow_add 2 bits shift).symm

private theorem le_exponent_searchGrids (tie : Tie) (magnitude tries : Nat) (exponent : Int) :
    exponent - tries ≤ (searchGrids tie magnitude tries exponent).exponent := by
  induction tries generalizing exponent with
  | zero => exact Int.sub_le_self exponent (Int.le_refl 0)
  | succ tries ih =>
    rw [searchGrids]
    split
    · change exponent - ((tries + 1 : Nat) : Int) ≤ exponent
      omega
    · have hLe := ih (exponent - 1)
      omega

/-- Bounds of the shortest decimal number of a magnitude, far from tight. -/
theorem shortest_bounds (tie : Tie) (hPos : 0 < magnitude) (hFinite : magnitude < infinity) :
    -347 ≤ (shortest tie magnitude).exponent ∧ (shortest tie magnitude).exponent ≤ 400 ∧
      (shortest tie magnitude).significand.log2 < 3489 := by
  have hContains := shortest_contains tie hPos hFinite
  have hLower : -347 ≤ (shortest tie magnitude).exponent := by
    have hLe := le_exponent_searchGrids tie magnitude 24 (startExponent magnitude)
    have hStart : -323 ≤ startExponent magnitude := by
      unfold startExponent
      omega
    change _ ≤ (searchGrids tie magnitude 24 (startExponent magnitude)).exponent
    omega
  exact ⟨hLower, exponent_le (significand_pos hPos hContains) hFinite hContains,
    log2_significand_lt hFinite hLower (Nat.le_refl 2101) (Nat.le_refl 1388) hContains⟩

private theorem four_mul_shiftLeft (n shift : Nat) : 4 * (n <<< shift) = n <<< (shift + 2) := by
  rw [Nat.shiftLeft_succ, Nat.shiftLeft_succ, ← Nat.mul_assoc]

private theorem mul_shiftLeft (a b shift : Nat) : (a * b) <<< shift = a * (b <<< shift) := by
  rw [Nat.shiftLeft_eq, Nat.shiftLeft_eq, Nat.mul_assoc]

private theorem ofMagnitude_of_le (negative : Bool) (h : infinity ≤ magnitude) :
    ofMagnitude negative infinity = ofMagnitude negative magnitude := by
  simp only [ofMagnitude, Nat.min_eq_right h, Nat.min_self]

/-- A decimal number in the interval of a magnitude is read as the magnitude. -/
theorem ofDecimal_of_contains (negative : Bool)
    (h : (roundingInterval magnitude).contains (significand * (cell exponent).1)
      (cell exponent).2 = true) :
    ofDecimal negative significand exponent = ofMagnitude negative magnitude := by
  unfold ofDecimal
  split
  · next hZero =>
    have hMagnitude : magnitude = 0 := by
      by_contra hNe
      have hPos := significand_pos (Nat.pos_of_ne_zero hNe) h
      omega
    rw [hMagnitude]
  · next hSignificand =>
    split
    · next hLarge =>
      apply ofMagnitude_of_le
      by_contra hFinite
      have hUpper := exponent_le (Nat.pos_of_ne_zero hSignificand) (Nat.not_le.1 hFinite) h
      omega
    · split
      · next hSmall =>
        have hMagnitude : magnitude = 0 := by
          by_contra hNe
          have hLower := le_exponent (Nat.pos_of_ne_zero hNe) h
          omega
        rw [hMagnitude]
      · have hDen := (cell_pos exponent).2
        unfold cell at h hDen
        split
        · next hWhole =>
          rw [if_pos hWhole, ← mul_shiftLeft] at h
          rw [ofQuotient, nearestMagnitude_eq Nat.one_pos]
          rwa [four_mul_shiftLeft]
        · next hFraction =>
          rw [if_neg hFraction, ← mul_shiftLeft, Nat.mul_one] at h
          rw [if_neg hFraction] at hDen
          rw [ofQuotient, nearestMagnitude_eq hDen]
          rwa [four_mul_shiftLeft]

/-- A whole decimal number is read like its tenths. -/
theorem ofDecimal_tenths (negative : Bool) (hExponent : 0 ≤ exponent)
    (h : (roundingInterval magnitude).contains (significand * (cell exponent).1)
      (cell exponent).2 = true) :
    ofDecimal negative (significand * Nat.pow 10 (exponent.toNat + 1)) (-1) =
      ofMagnitude negative magnitude := by
  apply ofDecimal_of_contains negative
  have hNum : significand * Nat.pow 10 (exponent.toNat + 1) * (cell (-1)).1 =
      significand * (cell exponent).1 * 10 := by
    rw [cell, cell, if_neg (by decide), if_pos hExponent]
    generalize (1076 : Nat) = bits
    dsimp only
    rw [Nat.shiftLeft_eq, Nat.shiftLeft_eq, Nat.one_mul,
      show Nat.pow 10 (exponent.toNat + 1) = Nat.pow 10 exponent.toNat * 10 from rfl]
    ac_rfl
  have hDen : (cell (-1)).2 = (cell exponent).2 * 10 := by
    rw [cell, cell, if_neg (by decide), if_pos hExponent]
    rfl
  rw [hNum, hDen, Interval.contains_mul (by decide)]
  exact h

/-- A finite number is its sign and its magnitude. -/
theorem ofMagnitude_magnitude {x : Binary64} (h : x.isFinite = true) :
    ofMagnitude x.negative x.magnitude = x := by
  obtain ⟨negative, magnitude, hLt⟩ := x
  have hFinite : magnitude < infinity := of_decide_eq_true h
  simp only [ofMagnitude, Nat.min_eq_left (Nat.le_of_lt hFinite)]

/-- The shortest decimal number of a finite number is read as the number. -/
theorem ofDecimal_shortest (tie : Tie) {x : Binary64} (h : x.isFinite = true)
    (hPos : 0 < x.magnitude) :
    ofDecimal x.negative (shortest tie x.magnitude).significand
      (shortest tie x.magnitude).exponent = x := by
  have hContains := shortest_contains tie hPos (of_decide_eq_true h)
  rw [ofDecimal_of_contains x.negative hContains, ofMagnitude_magnitude h]

end RowFilter.Binary64
