import Mathlib
import RowFilter.Proofs.Binary64.Nearest
import RowFilter.Proofs.Decimal.Layout

/-! The exact values of written numbers. A decimal number is read as the
floating-point number nearest to it, whatever its exponent. So a written
number is read exactly if its exponent counts in full. If it does not, digits
make no difference as long as they are few against the exponent. -/

namespace RowFilter

namespace Binary64

section Decimal

variable (negative : Bool) (significand : ℕ) (exponent : ℤ)

/-- A grid cell is a power of ten in quarter units. -/
theorem cell_div : ((cell exponent).1 : ℚ) / (cell exponent).2 = 10 ^ exponent * quartersInOne := by
  have hOne : ((1 <<< 1076 : ℕ) : ℚ) = quartersInOne := by
    have hNat : 1 <<< 1076 = 4 * unitsInOne := by decide +kernel
    rw [hNat, Nat.cast_mul, quartersInOne, Nat.cast_ofNat]
  unfold cell
  split
  · next hWhole =>
    lift exponent to ℕ using hWhole
    rw [shiftLeft_eq_mul, Nat.cast_mul, hOne, Nat.cast_one, div_one, zpow_natCast, Int.toNat_natCast]
    exact congrArg (· * quartersInOne) (Nat.cast_pow 10 exponent)
  · next hFraction =>
    obtain ⟨decimals, hDecimals⟩ := Int.eq_ofNat_of_zero_le (Int.neg_nonneg.2 (not_le.1 hFraction).le)
    have hPow : ((Nat.pow 10 decimals : ℕ) : ℚ) = 10 ^ decimals := Nat.cast_pow 10 decimals
    rw [hOne, hDecimals, Int.toNat_natCast, hPow, ← neg_neg exponent, hDecimals, zpow_neg,
      zpow_natCast, div_eq_inv_mul]

/-- A decimal number is read as the magnitude in whose interval it is. -/
theorem exists_covers : ∃ magnitude,
    ofDecimal negative significand exponent = ofMagnitude negative magnitude ∧
      (roundingInterval magnitude).Covers (significand * 10 ^ exponent * quartersInOne) := by
  have hDen := (cell_pos exponent).2
  obtain ⟨magnitude, hContains⟩ := exists_contains (significand * (cell exponent).1) hDen
  refine ⟨magnitude, ofDecimal_of_contains negative hContains, ?_⟩
  have hCovers := (Interval.covers_iff hDen).2 hContains
  rwa [Nat.cast_mul, mul_div_assoc, cell_div, ← mul_assoc] at hCovers

/-- A decimal number keeps its sign. -/
theorem ofDecimal_negative : (ofDecimal negative significand exponent).negative = negative := by
  obtain ⟨magnitude, hEq, -⟩ := exists_covers negative significand exponent
  rw [hEq]
  rfl

/-- Decimal numbers below the threshold are read as finite numbers. -/
theorem ofDecimal_isFinite_iff :
    (ofDecimal negative significand exponent).isFinite = true ↔
      (significand : ℚ) * 10 ^ exponent < overflowThreshold := by
  obtain ⟨magnitude, hEq, hCovers⟩ := exists_covers negative significand exponent
  rw [hEq]
  exact hCovers.isFinite_iff negative

variable {negative significand exponent}

/-- A decimal number is read as the nearest finite number. -/
theorem ofDecimal_isNearest (h : (ofDecimal negative significand exponent).isFinite = true) :
    (ofDecimal negative significand exponent).IsNearest
      (signed negative (significand * 10 ^ exponent)) := by
  obtain ⟨magnitude, hEq, hCovers⟩ := exists_covers negative significand exponent
  rw [hEq] at h ⊢
  exact hCovers.isNearest h

end Decimal

end Binary64

section Digits

theorem appendDigits_lt {digits : List Char} (h : IsDigits digits) (n : ℕ) :
    appendDigits n digits < (n + 1) * 10 ^ digits.length := by
  induction digits generalizing n with
  | nil => exact n.lt_succ_self.trans_eq (Nat.mul_one _).symm
  | cons c digits ih =>
    obtain ⟨hc, hDigits⟩ := List.forall_mem_cons.1 h
    have hDigit : digitValue c ≤ 9 := Nat.sub_le_of_le_add (Char.isDigit_iff_toNat.1 hc).2
    calc appendDigits n (c :: digits) = appendDigits (10 * n + digitValue c) digits := rfl
      _ < (10 * n + digitValue c + 1) * 10 ^ digits.length := ih hDigits _
      _ ≤ (n + 1) * 10 * 10 ^ digits.length := Nat.mul_le_mul_right _ (by omega)
      _ = (n + 1) * 10 ^ (c :: digits).length := by
          rw [List.length_cons, Nat.pow_succ, Nat.mul_assoc, Nat.mul_comm 10]

/-- A number is below the power of ten that has one digit more. -/
theorem digitsValue_lt {digits : List Char} (h : IsDigits digits) :
    digitsValue digits < 10 ^ digits.length := by
  rw [digitsValue_eq_appendDigits]
  exact (appendDigits_lt h 0).trans_eq (Nat.one_mul _)

end Digits

namespace Numeral

open Binary64

/-- The power of ten by which the significand counts as it is written. -/
def writtenScale (n : Numeral) : ℤ :=
  (n.exponent.map SignedDigits.value).getD 0 - (n.fraction.getD []).length

/-- The exact value of a number as it is written. -/
def value (n : Numeral) : ℚ :=
  signed n.negative (n.significand * 10 ^ n.writtenScale)

/-- The exact value of a number whose exponent is what it counts as. -/
def countedValue (n : Numeral) : ℚ :=
  signed n.negative (n.significand * 10 ^ n.scale)

/-- Whether the exponent of a number, if it has one, counts in full. -/
def CountsInFull (n : Numeral) : Prop :=
  ∀ exponent ∈ n.exponent, digitsValue exponent.digits < 10 * exponentBound

/-- Whether a number has few digits beside its exponent. -/
def IsShort (n : Numeral) : Prop :=
  n.whole.length + (n.fraction.getD []).length ≤ 65000

variable {n : Numeral}

/-- An exponent below ten times the bound counts as it is written. -/
theorem countedExponent_eq {exponent : SignedDigits}
    (h : digitsValue exponent.digits < 10 * exponentBound) :
    countedExponent exponent = exponent.value := by
  rw [digitsValue_eq_appendDigits] at h
  rw [countedExponent, SignedDigits.value, foldl_appendExponentDigit h, digitsValue_eq_appendDigits]

theorem scale_eq (h : n.CountsInFull) : n.scale = n.writtenScale := by
  rw [scale, writtenScale]
  cases hExponent : n.exponent with
  | none => rfl
  | some exponent =>
    have hEq := countedExponent_eq (h exponent hExponent)
    rw [Option.map_some, Option.map_some, hEq]

private theorem ofDecimal_eq_of_large (negative : Bool) (significand : ℕ) {first second : ℤ}
    (hFirst : 400 < first) (hSecond : 400 < second) :
    ofDecimal negative significand first = ofDecimal negative significand second := by
  simp only [ofDecimal, if_pos hFirst, if_pos hSecond]

private theorem ofDecimal_eq_zero (negative : Bool) {significand digits : ℕ} {exponent : ℤ}
    (hDigits : significand < 10 ^ digits) (hSmall : exponent ≤ -(digits + 400)) :
    ofDecimal negative significand exponent = ofMagnitude negative 0 := by
  apply ofDecimal_of_contains
  obtain ⟨decimals, rfl⟩ : ∃ decimals : ℕ, exponent = -decimals := ⟨exponent.natAbs, by omega⟩
  have hPow (more : ℕ) (hLe : digits + more ≤ decimals) :
      10 ^ digits * Nat.pow 10 more ≤ Nat.pow 10 decimals :=
    (Nat.pow_add 10 digits more).symm.trans_le (Nat.pow_le_pow_right (by decide) hLe)
  obtain ⟨factor, hFactor, hLe⟩ : ∃ factor, 1 <<< 1076 ≤ factor ∧
      10 ^ digits * factor ≤ Nat.pow 10 decimals :=
    ⟨_, by decide +kernel, hPow 400 (by omega)⟩
  have hNeg : ¬(0 : ℤ) ≤ -decimals := by omega
  have hHigh : (roundingInterval 0).high = 2 := rfl
  rw [Interval.contains_iff, cell, if_neg hNeg, hHigh, neg_neg, Int.toNat_natCast]
  refine ⟨(Nat.zero_mul _).symm ▸ Nat.zero_le _, ?_, fun hOpen => absurd hOpen (by decide)⟩
  calc significand * 1 <<< 1076 ≤ 10 ^ digits * factor := Nat.mul_le_mul hDigits.le hFactor
    _ ≤ Nat.pow 10 decimals := hLe
    _ ≤ 2 * Nat.pow 10 decimals := Nat.le_mul_of_pos_left _ two_pos

/-- A short number is read as it is written, also if its exponent does not count in full. -/
theorem ofDecimal_scale_of_isShort (hDigits : IsDigits (n.whole ++ n.fraction.getD []))
    (hShort : n.IsShort) : ofDecimal n.negative n.significand n.scale =
      ofDecimal n.negative n.significand n.writtenScale := by
  by_cases hFull : n.CountsInFull
  · rw [scale_eq hFull]
  obtain ⟨exponent, hExponent, hLarge⟩ : ∃ exponent ∈ n.exponent,
      10 * exponentBound ≤ digitsValue exponent.digits := by
    simpa only [CountsInFull, not_forall, not_lt, exists_prop] using hFull
  have hSome : n.exponent = some exponent := hExponent
  have hWritten : exponentBound ≤ appendDigits 0 exponent.digits := by
    rw [← digitsValue_eq_appendDigits]
    simp only [exponentBound] at hLarge ⊢
    omega
  have hCounted := exponentBound_le_foldl hWritten
  rw [← digitsValue_eq_appendDigits] at hWritten
  simp only [IsShort] at hShort
  simp only [scale, writtenScale, hSome, Option.map_some, Option.getD_some, countedExponent,
    SignedDigits.value, SignedDigits.applySign]
  simp only [exponentBound] at hWritten hCounted
  cases exponent.negative with
  | false =>
    simp only [Bool.false_eq_true, if_false]
    exact ofDecimal_eq_of_large _ _ (by omega) (by omega)
  | true =>
    have hLt := digitsValue_lt hDigits
    rw [List.length_append] at hLt
    change n.significand < _ at hLt
    simp only [if_true]
    rw [ofDecimal_eq_zero _ hLt (by omega), ofDecimal_eq_zero _ hLt (by omega)]

/-- A number whose exponent counts in full, or that is short, is read as it is written. -/
theorem ofDecimal_scale (hDigits : IsDigits (n.whole ++ n.fraction.getD []))
    (h : n.CountsInFull ∨ n.IsShort) : ofDecimal n.negative n.significand n.scale =
      ofDecimal n.negative n.significand n.writtenScale := by
  rcases h with hFull | hShort
  · rw [scale_eq hFull]
  · exact ofDecimal_scale_of_isShort hDigits hShort

/-- The floating-point number that a written number is converted to. -/
def converted (n : Numeral) : Binary64 :=
  ofDecimal n.negative n.significand n.scale

/-- What a number is converted to is a value correctly rounded: the finite number nearest to it,
ties to even, or an infinity if the value rounds to one. -/
structure IsRoundedFrom (n : Numeral) (v : ℚ) : Prop where
  isNearest : |v| < overflowThreshold → n.converted.IsNearest v
  overflows : overflowThreshold ≤ |v| → n.converted.isFinite = false

/-- Whether the conversion rounds a number correctly, which means from its exact value. It need not
if it leaves out digits of the exponent of a very long number. -/
def RoundsCorrectly (n : Numeral) : Prop :=
  n.IsRoundedFrom n.value

/-- A number is rounded from each value that it is converted like. -/
theorem isRoundedFrom_of_eq {exponent : ℤ}
    (h : n.converted = ofDecimal n.negative n.significand exponent) :
    n.IsRoundedFrom (signed n.negative (n.significand * 10 ^ exponent)) := by
  have hPos : (0 : ℚ) ≤ n.significand * 10 ^ exponent := by positivity
  have hFinite := ofDecimal_isFinite_iff n.negative n.significand exponent
  have hAbs : |signed n.negative (n.significand * 10 ^ exponent)| = n.significand * 10 ^ exponent := by
    rw [abs_signed, abs_of_nonneg hPos]
  refine ⟨fun hSmall => ?_, fun hLarge => ?_⟩
  · rw [h]
    exact ofDecimal_isNearest (hFinite.2 (hAbs ▸ hSmall))
  · rw [h, ← Bool.not_eq_true, hFinite, not_lt]
    exact hAbs ▸ hLarge

/-- Every number is rounded correctly from its value with the exponent as it counts. -/
theorem isRoundedFrom_countedValue (n : Numeral) : n.IsRoundedFrom n.countedValue :=
  isRoundedFrom_of_eq rfl

/-- The conversion rounds correctly unless a number has both an exponent that does not count in full
and tens of thousands of other digits. -/
theorem roundsCorrectly (hDigits : IsDigits (n.whole ++ n.fraction.getD []))
    (h : n.CountsInFull ∨ n.IsShort) : n.RoundsCorrectly :=
  isRoundedFrom_of_eq (ofDecimal_scale hDigits h)

theorem countedValue_eq (h : n.CountsInFull) : n.countedValue = n.value := by
  rw [countedValue, value, scale_eq h]

/-- A number without an exponent has none that could count less. -/
theorem countsInFull_of_isIntegral (h : n.isIntegral = true) : n.CountsInFull := by
  intro exponent hExponent
  rw [Option.isNone_iff_eq_none.1 (Bool.and_eq_true_iff.1 h).2] at hExponent
  cases hExponent

/-- A number without point and exponent is the integer that its digits spell. -/
theorem value_of_isIntegral (h : n.isIntegral = true) : n.value = n.integer := by
  obtain ⟨negative, whole, fraction, exponent⟩ := n
  obtain ⟨hFraction, hExponent⟩ := Bool.and_eq_true_iff.1 h
  obtain rfl : fraction = none := Option.isNone_iff_eq_none.1 hFraction
  obtain rfl : exponent = none := Option.isNone_iff_eq_none.1 hExponent
  have hSignificand : significand ⟨negative, whole, none, none⟩ = digitsValue whole := by
    rw [significand, Option.getD_none, List.append_nil]
  rw [value, integer, hSignificand]
  change signed negative (digitsValue whole * 10 ^ (0 : ℤ)) = _
  rw [zpow_zero, mul_one, signed, SignedDigits.applySign]
  split
  · rw [Int.cast_neg, Int.cast_natCast]
  · rw [Int.cast_natCast]

end Numeral

end RowFilter
