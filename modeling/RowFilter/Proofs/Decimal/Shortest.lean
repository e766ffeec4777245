import RowFilter.Proofs.Binary64.Interval

/-! The search for the shortest decimal number. A grid whose cells are no
wider than a step has a point in the rounding interval, and the search comes
to such a grid, so what it finds rounds to the magnitude that it is for. -/

namespace RowFilter.Binary64

/-- The power of two that is the step of a magnitude. -/
theorem step_eq (magnitude : Nat) : step magnitude = Nat.pow 2 (magnitude / binade - 1) := by
  rw [step, Nat.shiftLeft_eq, Nat.one_mul]
  rfl

/-- The step from one magnitude to the next is positive. -/
theorem step_pos (magnitude : Nat) : 0 < step magnitude := by
  rw [step_eq]
  exact Nat.two_pow_pos _

/-- A value has at most 53 bits above its step. -/
theorem units_lt (magnitude : Nat) : units magnitude < 2 * binade * step magnitude := by
  by_cases hSmall : magnitude < 2 * binade
  · rw [units_of_lt hSmall, step_of_lt hSmall, Nat.mul_one]
    exact hSmall
  · obtain ⟨shift, fraction, -, hFraction, hUnits, hStep, -⟩ :=
      exists_exponent (Nat.le_of_not_lt hSmall)
    rw [hUnits, hStep]
    exact Nat.mul_lt_mul_of_pos_right (by omega) (Nat.two_pow_pos _)

/-- The step at a positive magnitude is not wider than its value. -/
theorem step_le_units {magnitude : Nat} (hPos : 0 < magnitude) :
    step magnitude ≤ units magnitude := by
  by_cases hSmall : magnitude < 2 * binade
  · rw [units_of_lt hSmall, step_of_lt hSmall]
    exact hPos
  · obtain ⟨shift, fraction, -, -, hUnits, hStep, -⟩ := exists_exponent (Nat.le_of_not_lt hSmall)
    rw [hUnits, hStep]
    exact Nat.le_mul_of_pos_left _ (Nat.lt_of_lt_of_le (by decide) (Nat.le_add_right binade _))

/-- The interval reaches a quarter step downwards at least, and not to zero. -/
theorem low_add_step_le {magnitude : Nat} (hPos : 0 < magnitude) :
    (roundingInterval magnitude).low + step magnitude ≤ 4 * units magnitude ∧
      0 < (roundingInterval magnitude).low := by
  have hStep := step_pos magnitude
  have hUnits := step_le_units hPos
  simp only [roundingInterval]
  split <;> omega

private theorem shiftLeft_pos {n : Nat} (h : 0 < n) (k : Nat) : 0 < n <<< k := by
  rw [Nat.shiftLeft_eq]
  exact Nat.mul_pos h (Nat.two_pow_pos k)

theorem cell_pos (exponent : Int) : 0 < (cell exponent).1 ∧ 0 < (cell exponent).2 := by
  have hPow (n : Nat) : 0 < Nat.pow 10 n := Nat.pow_pos (by decide)
  unfold cell
  split
  · exact ⟨shiftLeft_pos (hPow _) _, Nat.one_pos⟩
  · exact ⟨shiftLeft_pos Nat.one_pos _, hPow _⟩

section Grid

variable {tie : Tie} {magnitude : Nat} {exponent : Int}

/-- A point that a grid gives lies in the interval. -/
theorem contains_of_gridPoint? {point : Nat} (h : gridPoint? tie magnitude exponent = some point) :
    (roundingInterval magnitude).contains (point * (cell exponent).1) (cell exponent).2 = true := by
  simp only [gridPoint?] at h
  generalize hBelow : 4 * units magnitude * (cell exponent).2 / (cell exponent).1 = below at h
  generalize hRest : 4 * units magnitude * (cell exponent).2 % (cell exponent).1 = rest at h
  split at h
  · cases h
  · next hContains _ =>
    cases h
    exact hContains
  · next _ hContains =>
    cases h
    exact hContains
  · next hContains hNext =>
    split at h
    · cases h
      exact hContains
    · split at h
      · cases h
        exact hNext
      · cases tie with
        | upward =>
          cases h
          exact hNext
        | even =>
          cases h
          rcases Nat.mod_two_eq_zero_or_one below with hEven | hOdd
          · rw [hEven]
            exact hContains
          · rw [hOdd]
            exact hNext

/-- A grid with cells no wider than a step has a point in the interval. -/
theorem gridPoint?_ne_none (hPos : 0 < magnitude)
    (hCell : (cell exponent).1 ≤ step magnitude * (cell exponent).2) :
    gridPoint? tie magnitude exponent ≠ none := by
  obtain ⟨hNum, hDen⟩ := cell_pos exponent
  generalize hNumEq : (cell exponent).1 = num at hNum hCell
  generalize hDenEq : (cell exponent).2 = den at hDen hCell
  have hSplit := Nat.div_add_mod' (4 * units magnitude * den) num
  have hRest := Nat.mod_lt (4 * units magnitude * den) hNum
  obtain ⟨hLow, -⟩ := low_add_step_le hPos
  have hLowMul := Nat.mul_le_mul_right den hLow
  have hStepMul := Nat.mul_pos (step_pos magnitude) hDen
  rw [Nat.add_mul] at hLowMul
  have hContains : (roundingInterval magnitude).contains
      (4 * units magnitude * den / num * num) den = true := by
    have hHigh : (roundingInterval magnitude).high * den =
        4 * units magnitude * den + 2 * (step magnitude * den) := by
      rw [← Nat.mul_assoc, ← Nat.add_mul]
      rfl
    rw [Interval.contains_iff, hHigh]
    omega
  simp only [gridPoint?, hNumEq, hDenEq, hContains]
  cases (roundingInterval magnitude).contains ((4 * units magnitude * den / num + 1) * num) den with
  | false => simp
  | true =>
    dsimp only
    split
    · simp
    · split
      · simp
      · cases tie <;> simp

/-- A search with enough tries finds a point of a grid that has one. -/
theorem searchGrids_spec {tries back : Nat} (hBack : back < tries)
    (h : gridPoint? tie magnitude (exponent - back) ≠ none) :
    gridPoint? tie magnitude (searchGrids tie magnitude tries exponent).exponent =
      some (searchGrids tie magnitude tries exponent).significand := by
  induction tries generalizing exponent back with
  | zero => omega
  | succ tries ih =>
    rw [searchGrids]
    cases hPoint : gridPoint? tie magnitude exponent with
    | some point => exact hPoint
    | none =>
      cases back with
      | zero =>
        rw [Int.natCast_zero, Int.sub_zero] at h
        exact absurd hPoint h
      | succ back =>
        apply ih (Nat.lt_of_succ_lt_succ hBack)
        rwa [Int.sub_sub, Int.add_comm, ← Int.natCast_succ]

end Grid

section Powers

/-- Ten to the third is less than two to the tenth. -/
theorem pow_ten_le {a b : Nat} (h : 10 * a ≤ 3 * b) : Nat.pow 10 a ≤ Nat.pow 2 b := by
  rw [← Nat.pow_le_pow_iff_left (n := 3) (by decide)]
  calc Nat.pow (Nat.pow 10 a) 3 = Nat.pow 1000 a := Nat.pow_right_comm 10 a 3
    _ ≤ Nat.pow 1024 a := Nat.pow_le_pow_left (by decide) a
    _ = Nat.pow 2 (10 * a) := (Nat.pow_mul 2 10 a).symm
    _ ≤ Nat.pow 2 (b * 3) := Nat.pow_le_pow_right (by decide) (by omega)
    _ = Nat.pow (Nat.pow 2 b) 3 := Nat.pow_mul 2 b 3

/-- Two to the 93rd is less than ten to the 28th. -/
theorem pow_two_le {a b : Nat} (h : 28 * b ≤ 93 * a) : Nat.pow 2 b ≤ Nat.pow 10 a := by
  rw [← Nat.pow_le_pow_iff_left (n := 28) (by decide)]
  calc Nat.pow (Nat.pow 2 b) 28 = Nat.pow 2 (b * 28) := (Nat.pow_mul 2 b 28).symm
    _ ≤ Nat.pow 2 (93 * a) := Nat.pow_le_pow_right (by decide) (by omega)
    _ = Nat.pow (Nat.pow 2 93) a := Nat.pow_mul 2 93 a
    _ ≤ Nat.pow (Nat.pow 10 28) a := Nat.pow_le_pow_left (by decide) a
    _ = Nat.pow (Nat.pow 10 a) 28 := Nat.pow_right_comm 10 28 a

private theorem shiftLeft_le {a k s : Nat} (hShift : k ≤ s) (h : 10 * a ≤ 3 * (s - k)) :
    Nat.pow 10 a <<< k ≤ Nat.pow 2 s := by
  rw [Nat.shiftLeft_eq]
  calc Nat.pow 10 a * 2 ^ k ≤ Nat.pow 2 (s - k) * 2 ^ k := Nat.mul_le_mul_right _ (pow_ten_le h)
    _ = Nat.pow 2 (s - k + k) := (Nat.pow_add 2 (s - k) k).symm
    _ = Nat.pow 2 s := by rw [Nat.sub_add_cancel hShift]

private theorem one_shiftLeft_le {a k s : Nat} (h : 28 * (k - s) ≤ 93 * a) :
    1 <<< k ≤ Nat.pow 2 s * Nat.pow 10 a := by
  rw [Nat.shiftLeft_eq, Nat.one_mul]
  calc 2 ^ k ≤ 2 ^ (s + (k - s)) := Nat.pow_le_pow_right (by decide) (by omega)
    _ = Nat.pow 2 s * Nat.pow 2 (k - s) := Nat.pow_add 2 s (k - s)
    _ ≤ Nat.pow 2 s * Nat.pow 10 a := Nat.mul_le_mul_left _ (pow_two_le h)

end Powers

section Search

variable {magnitude : Nat}

/-- The cells of the last grid of a search are no wider than a step. -/
theorem cell_le_step (hPos : 0 < magnitude) (hFinite : magnitude < infinity) :
    (cell (startExponent magnitude - 23)).1 ≤
      step magnitude * (cell (startExponent magnitude - 23)).2 := by
  have hLog : (4 * units magnitude).log2 ≤ magnitude / binade - 1 + 54 := by
    have hUnits := units_lt magnitude
    have hLow := step_le_units hPos
    have hStep := step_pos magnitude
    have hLt : 4 * units magnitude < 2 ^ (magnitude / binade - 1 + 55) := by
      have hPow : 2 ^ (magnitude / binade - 1 + 55) = 2 ^ 55 * step magnitude := by
        rw [step_eq, Nat.pow_add, Nat.mul_comm]
        rfl
      rw [hPow]
      simp only [binade] at hUnits
      omega
    have hLogLt := (Nat.log2_lt (by omega)).2 hLt
    omega
  have hShift : magnitude / binade - 1 ≤ 2045 := by
    simp only [infinity, binade] at *
    omega
  rw [step_eq]
  unfold startExponent cell
  split
  · rw [Nat.mul_one]
    exact shiftLeft_le (by omega) (by omega)
  · exact one_shiftLeft_le (by omega)

/-- The shortest decimal number of a magnitude lies in the interval of the reals that round to it. -/
theorem shortest_contains (tie : Tie) (hPos : 0 < magnitude) (hFinite : magnitude < infinity) :
    (roundingInterval magnitude).contains
      ((shortest tie magnitude).significand * (cell (shortest tie magnitude).exponent).1)
      (cell (shortest tie magnitude).exponent).2 = true :=
  contains_of_gridPoint? (searchGrids_spec (by decide : 23 < 24)
    (gridPoint?_ne_none hPos (cell_le_step hPos hFinite)))

end Search

end RowFilter.Binary64
