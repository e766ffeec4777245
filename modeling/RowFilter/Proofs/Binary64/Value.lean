import Mathlib
import RowFilter.Proofs.Binary64.Order
import RowFilter.Proofs.Decimal.Shortest

/-! The exact values of floating-point numbers: rational numbers, with the
infinities below and above them. The total order of floating-point numbers
follows the values, and rounding moves no integer across a number. -/

namespace RowFilter.Binary64

/-- A rational number or an infinity. -/
abbrev ExactValue := WithBot (WithTop ℚ)

/-- The value of a finite number in units. -/
def signedUnits (x : Binary64) : ℤ :=
  if x.negative then -(units x.magnitude : ℤ) else units x.magnitude

/-- The number of units in one. -/
def unitsInOne : ℕ := 1 <<< 1074

def value (x : Binary64) : ExactValue :=
  if x.isFinite then ((x.signedUnits / unitsInOne : ℚ) : WithTop ℚ)
  else if x.negative then ⊥ else ⊤

def valueOfInt (n : ℤ) : ExactValue := ((n : ℚ) : WithTop ℚ)

section Units

variable {magnitude other : Nat}

/-- Larger magnitudes have larger values, in one binade and from binade to binade. -/
theorem units_mono (h : magnitude ≤ other) : units magnitude ≤ units other := by
  by_cases hSmall : other < 2 * binade
  · rw [units_of_lt hSmall, units_of_lt (Nat.lt_of_le_of_lt h hSmall)]
    exact h
  obtain ⟨shift, fraction, hOther, hFraction, hUnits, -⟩ := exists_exponent (Nat.le_of_not_lt hSmall)
  by_cases hLow : magnitude < 2 * binade
  · rw [units_of_lt hLow, hUnits]
    have hPow : 2 ≤ Nat.pow 2 (shift + 1) := Nat.le_self_pow (Nat.succ_ne_zero shift) 2
    have hLe := Nat.mul_le_mul (Nat.le_add_right binade fraction) hPow
    omega
  obtain ⟨low, rest, hMagnitude, hRest, hLowUnits, -⟩ := exists_exponent (Nat.le_of_not_lt hLow)
  rw [hLowUnits, hUnits]
  by_cases hSame : low = shift
  · subst hSame
    exact Nat.mul_le_mul_right _ (by omega)
  · have hLt : low < shift := by
      by_contra hNot
      have hLe := Nat.mul_le_mul_right binade (show shift + 1 ≤ low by omega)
      rw [Nat.add_mul] at hLe hMagnitude hOther
      omega
    have hPow : Nat.pow 2 (low + 2) ≤ Nat.pow 2 (shift + 1) :=
      Nat.pow_le_pow_right (by decide) (by omega)
    calc (binade + rest) * Nat.pow 2 (low + 1)
        ≤ 2 * binade * Nat.pow 2 (low + 1) := Nat.mul_le_mul_right _ (by omega)
      _ = binade * Nat.pow 2 (low + 2) := by
          rw [show Nat.pow 2 (low + 2) = Nat.pow 2 (low + 1) * 2 from rfl]
          ac_rfl
      _ ≤ (binade + fraction) * Nat.pow 2 (shift + 1) :=
          Nat.mul_le_mul (Nat.le_add_right ..) hPow

/-- The value of a magnitude is nearest to that magnitude. -/
theorem nearestMagnitude_units (magnitude : Nat) : nearestMagnitude (units magnitude) 1 = magnitude := by
  have hStep := step_pos magnitude
  apply nearestMagnitude_eq Nat.one_pos
  rw [Interval.contains_iff]
  simp only [roundingInterval, Nat.mul_one, decide_eq_false_iff_not]
  refine ⟨Nat.sub_le _ _, Nat.le_add_right _ _, fun hOdd => ⟨?_, by omega⟩⟩
  have hUnits : step magnitude ≤ units magnitude := step_le_units (by omega)
  split <;> omega

/-- Units above the value of a magnitude are nearest to it or to a larger one. -/
theorem le_nearestMagnitude {num : Nat} (h : units magnitude ≤ num) :
    magnitude ≤ nearestMagnitude num 1 := by
  have hMono : nearestMagnitude (units magnitude) 1 ≤ nearestMagnitude num 1 :=
    nearestMagnitude_mono h
  rwa [nearestMagnitude_units] at hMono

private theorem nearestMagnitude_le_of_le {num : Nat} (h : num ≤ units magnitude) :
    nearestMagnitude num 1 ≤ magnitude := by
  have hMono : nearestMagnitude num 1 ≤ nearestMagnitude (units magnitude) 1 :=
    nearestMagnitude_mono h
  rwa [nearestMagnitude_units] at hMono

end Units

variable {x y : Binary64} {m n : ℤ}

theorem value_of_isFinite (h : x.isFinite = true) :
    x.value = ((x.signedUnits / unitsInOne : ℚ) : WithTop ℚ) := by
  rw [value, if_pos h]

/-- A number that is not finite is one of the infinities. -/
theorem value_of_not_isFinite (hNumber : x.isNaN = false) (h : x.isFinite = false) :
    x.magnitude = infinity ∧
      (x.negative = true ∧ x.value = ⊥ ∨ x.negative = false ∧ x.value = ⊤) := by
  have hValue : x.value = if x.negative then ⊥ else ⊤ := by rw [value, h, if_neg Bool.false_ne_true]
  simp only [isNaN, isFinite, decide_eq_false_iff_not] at hNumber h
  refine ⟨by omega, ?_⟩
  rw [hValue]
  cases x.negative <;> simp

theorem shiftLeft_eq_mul (n shift : ℕ) : n <<< shift = n * 1 <<< shift := by
  rw [Nat.shiftLeft_eq, Nat.shiftLeft_eq, Nat.one_mul]

theorem unitsInOne_pos : 0 < unitsInOne := by
  rw [unitsInOne, Nat.shiftLeft_pos_iff]
  exact Nat.one_pos

/-- The values of integers are in the order of the integers. -/
theorem valueOfInt_le_valueOfInt : valueOfInt m ≤ valueOfInt n ↔ m ≤ n := by
  rw [valueOfInt, valueOfInt, WithBot.coe_le_coe, WithTop.coe_le_coe, Int.cast_le]

/-- An integer is below a finite number if it has fewer units. -/
theorem valueOfInt_lt_iff (h : x.isFinite = true) :
    valueOfInt n < x.value ↔ n * unitsInOne < x.signedUnits := by
  have hPos : (0 : ℚ) < unitsInOne := Nat.cast_pos.2 unitsInOne_pos
  rw [value_of_isFinite h, valueOfInt, WithBot.coe_lt_coe, WithTop.coe_lt_coe, lt_div_iff₀ hPos]
  exact_mod_cast Iff.rfl

/-- A finite number is below an integer if it has fewer units. -/
theorem lt_valueOfInt_iff (h : x.isFinite = true) :
    x.value < valueOfInt n ↔ x.signedUnits < n * unitsInOne := by
  have hPos : (0 : ℚ) < unitsInOne := Nat.cast_pos.2 unitsInOne_pos
  rw [value_of_isFinite h, valueOfInt, WithBot.coe_lt_coe, WithTop.coe_lt_coe, div_lt_iff₀ hPos]
  exact_mod_cast Iff.rfl

/-- The values of finite numbers are in the order of their units. -/
theorem value_le_value_iff (hX : x.isFinite = true) (hY : y.isFinite = true) :
    x.value ≤ y.value ↔ x.signedUnits ≤ y.signedUnits := by
  have hPos : (0 : ℚ) < unitsInOne := Nat.cast_pos.2 unitsInOne_pos
  rw [value_of_isFinite hX, value_of_isFinite hY, WithBot.coe_le_coe, WithTop.coe_le_coe,
    div_le_div_iff_of_pos_right hPos, Int.cast_le]

/-- The total order of numbers follows their units. The two zeros have one value. -/
theorem signedUnits_mono (h : x.rank ≤ y.rank) : x.signedUnits ≤ y.signedUnits := by
  rw [signedUnits, signedUnits]
  simp only [rank] at h
  cases hSignX : x.negative <;> cases hSignY : y.negative <;>
    simp only [hSignX, hSignY, if_true, if_false, Bool.false_eq_true] at h ⊢
  · exact_mod_cast units_mono (show x.magnitude ≤ y.magnitude by omega)
  · omega
  · omega
  · have hUnits := units_mono (show y.magnitude ≤ x.magnitude by omega)
    omega

/-- The total order of numbers follows their values, the infinities included. -/
theorem value_mono (hX : x.isNaN = false) (hY : y.isNaN = false) (h : x.rank ≤ y.rank) :
    x.value ≤ y.value := by
  cases hFiniteX : x.isFinite with
  | false =>
    obtain ⟨hInfinite, ⟨-, hBot⟩ | ⟨hPositive, -⟩⟩ := value_of_not_isFinite hX hFiniteX
    · rw [hBot]
      exact bot_le
    · simp only [rank] at h
      have hLe : infinity ≤ y.magnitude ∧ y.negative = false := by
        cases hSign : y.negative <;> simp [hPositive, hSign, hInfinite] at h ⊢ <;> omega
      have hFiniteY : y.isFinite = false := decide_eq_false (Nat.not_lt.2 hLe.1)
      obtain ⟨-, ⟨hNegative, -⟩ | ⟨-, hTop⟩⟩ := value_of_not_isFinite hY hFiniteY
      · rw [hLe.2] at hNegative
        cases hNegative
      · rw [hTop]
        exact le_top
  | true =>
    cases hFiniteY : y.isFinite with
    | false =>
      obtain ⟨hInfinite, ⟨hNegative, -⟩ | ⟨-, hTop⟩⟩ := value_of_not_isFinite hY hFiniteY
      · simp only [rank] at h
        have hLt : x.magnitude < infinity := of_decide_eq_true hFiniteX
        cases hSign : x.negative <;> simp [hNegative, hSign, hInfinite] at h <;> omega
      · rw [hTop]
        exact le_top
    | true => exact (value_le_value_iff hFiniteX hFiniteY).2 (signedUnits_mono h)

/-- The place of the number nearest to an integer. -/
theorem rank_ofInt (n : ℤ) : (ofInt n).rank =
    if n < 0 then -(min (nearestMagnitude (n.natAbs * unitsInOne) 1) infinity : ℤ) - 1
    else min (nearestMagnitude (n.natAbs * unitsInOne) 1) infinity := by
  have hUnits : n.natAbs <<< 1074 = n.natAbs * unitsInOne := shiftLeft_eq_mul _ _
  simp only [rank, ofInt, ofQuotient, ofMagnitude, hUnits, decide_eq_true_eq, Nat.cast_min]

/-- The value of an integer in units. -/
theorem mul_unitsInOne (n : ℤ) : n * unitsInOne =
    if n < 0 then -((n.natAbs * unitsInOne : ℕ) : ℤ) else (n.natAbs * unitsInOne : ℕ) := by
  split
  · next hNegative => rw [Nat.cast_mul, Int.ofNat_natAbs_of_nonpos hNegative.le, Int.neg_mul, neg_neg]
  · next hNonnegative => rw [Nat.cast_mul, Int.natAbs_of_nonneg (not_lt.1 hNonnegative)]

private theorem rank_ofInt_of_isFinite (h : x.isFinite = true) :
    (n * unitsInOne < x.signedUnits → (ofInt n).rank ≤ x.rank) ∧
      (x.signedUnits < n * unitsInOne → x.rank ≤ (ofInt n).rank) := by
  rw [rank_ofInt, rank, mul_unitsInOne, signedUnits]
  generalize n.natAbs * unitsInOne = num
  have hLt : x.magnitude < infinity := of_decide_eq_true h
  have hAbove : units x.magnitude ≤ num → x.magnitude ≤ nearestMagnitude num 1 :=
    le_nearestMagnitude
  have hBelow : num ≤ units x.magnitude → nearestMagnitude num 1 ≤ x.magnitude :=
    nearestMagnitude_le_of_le
  by_cases hSign : n < 0 <;> cases hNegative : x.negative <;>
    simp only [hSign, if_true, if_false, Bool.false_eq_true] <;> omega

/-- An integer below a number is rounded to that number at most. -/
theorem rank_ofInt_le (hNumber : x.isNaN = false) (h : valueOfInt n < x.value) :
    (ofInt n).rank ≤ x.rank := by
  cases hFinite : x.isFinite with
  | true => exact (rank_ofInt_of_isFinite hFinite).1 ((valueOfInt_lt_iff hFinite).1 h)
  | false =>
    obtain ⟨hInfinite, ⟨-, hBot⟩ | ⟨hPositive, -⟩⟩ := value_of_not_isFinite hNumber hFinite
    · rw [hBot] at h
      exact absurd h not_lt_bot
    · rw [rank_ofInt, rank, hPositive, hInfinite, if_neg Bool.false_ne_true]
      split <;> omega

/-- An integer above a number is rounded to that number at least. -/
theorem le_rank_ofInt (hNumber : x.isNaN = false) (h : x.value < valueOfInt n) :
    x.rank ≤ (ofInt n).rank := by
  cases hFinite : x.isFinite with
  | true => exact (rank_ofInt_of_isFinite hFinite).2 ((lt_valueOfInt_iff hFinite).1 h)
  | false =>
    obtain ⟨hInfinite, ⟨hNegative, -⟩ | ⟨-, hTop⟩⟩ := value_of_not_isFinite hNumber hFinite
    · rw [rank_ofInt, rank, hNegative, hInfinite, if_pos rfl]
      split <;> omega
    · rw [hTop] at h
      exact absurd h not_top_lt

end RowFilter.Binary64
