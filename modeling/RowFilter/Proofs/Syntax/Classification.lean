import Mathlib
import RowFilter.Proofs.Decimal.Exact
import RowFilter.Proofs.Syntax.Normalisation

/-! The classification of numbers by their exact values. A text without point
and exponent is an integer if 64 bits hold its value. Any other number is the
nearest finite floating-point number, or nothing if it rounds to infinity, as
far as the conversion to floating-point numbers rounds correctly. -/

namespace RowFilter

open Grammar Binary64

/-- Whether a text has neither a point nor the mark of an exponent. -/
def IsPlain (lexeme : String) : Prop :=
  ∀ c ∈ lexeme.toList, c ≠ '.' ∧ c ≠ 'e' ∧ c ≠ 'E'

/-- Whether a number is in the range of the integers of 64 bits. -/
def InInt64Range (v : ℚ) : Prop :=
  -(2 ^ 63) ≤ v ∧ v ≤ 2 ^ 63 - 1

namespace Spelling

variable (spelling : Spelling)

private theorem isDigits_append : IsDigits (spelling.whole ++ spelling.fraction.getD []) :=
  spelling.whole_isDigits.append spelling.fraction_isDigits

private theorem ne_of_isDigit {c : Char} (h : c.isDigit = true) : c ≠ '.' ∧ c ≠ 'e' ∧ c ≠ 'E' := by
  refine ⟨?_, ?_, ?_⟩ <;> rintro rfl <;> cases h

/-- The plain spellings are the ones without fraction and exponent. -/
theorem isPlain_iff :
    IsPlain (String.ofList spelling.text) ↔ spelling.numeral.isIntegral = true := by
  rw [IsPlain, String.toList_ofList]
  obtain ⟨sign, whole, fraction, exponent, hWhole, hFraction, hDigit⟩ := spelling
  simp only [text, numeral, Numeral.isIntegral, Option.isNone_map]
  constructor
  · intro hPlain
    have hNoPoint : fraction.isNone = true := by
      cases fraction with
      | none => rfl
      | some digits => exact absurd rfl (hPlain '.' (by simp [fractionText])).1
    have hNoMark : exponent.isNone = true := by
      cases exponent with
      | none => rfl
      | some exponent =>
        have hMark := hPlain exponent.mark (by simp [exponentText, ExponentSpelling.text])
        exact (exponent.mark_eq.elim hMark.2.1 hMark.2.2).elim
    rw [hNoPoint, hNoMark, Bool.and_self]
  · intro hIntegral
    obtain ⟨hNoPoint, hNoMark⟩ := Bool.and_eq_true_iff.1 hIntegral
    obtain rfl : fraction = none := Option.isNone_iff_eq_none.1 hNoPoint
    obtain rfl : exponent = none := Option.isNone_iff_eq_none.1 hNoMark
    have hSign : ∀ c ∈ sign.text, c ≠ '.' ∧ c ≠ 'e' ∧ c ≠ 'E' := by
      cases sign <;> simp [Sign.text]
    have hDigits : ∀ c ∈ whole, c ≠ '.' ∧ c ≠ 'e' ∧ c ≠ 'E' := fun c hc => ne_of_isDigit (hWhole c hc)
    simpa [fractionText, exponentText] using List.forall_mem_append.2 ⟨hSign, hDigits⟩

/-- Texts of at most 65000 characters are short. -/
theorem isShort_of_length_le (h : spelling.text.length ≤ 65000) : spelling.numeral.IsShort := by
  have hFraction : (spelling.fraction.getD []).length ≤ (fractionText spelling.fraction).length := by
    cases spelling.fraction with
    | none => exact le_rfl
    | some digits => exact Nat.le_succ digits.length
  simp only [text, List.length_append] at h
  simp only [Numeral.IsShort, numeral]
  omega

/-- A number is negative if its text begins with a minus. -/
theorem negative_iff : spelling.numeral.negative = true ↔ spelling.text.head? = some '-' := by
  obtain ⟨sign, whole, fraction, exponent, hWhole, hFraction, hDigit⟩ := spelling
  cases sign with
  | plus | minus => simp [numeral, text, Sign.text, Sign.negative]
  | none =>
    cases whole with
    | cons c whole =>
      have hc := hWhole c List.mem_cons_self
      have hNe : c ≠ '-' := by
        rintro rfl
        cases hc
      simp [numeral, text, Sign.text, Sign.negative, hNe]
    | nil =>
      cases fraction with
      | none => simp at hDigit
      | some fraction => simp [numeral, text, Sign.text, Sign.negative, fractionText]

end Spelling

namespace Literal

/-- Which integers a text that spells a number with an exact value is read as: plain texts
whose value is in the range are read as this value. -/
structure ReadsIntegers (lexeme : String) (v : ℚ) : Prop where
  integer_iff : (∃ n, ofNumber? lexeme = some (integer n)) ↔ IsPlain lexeme ∧ InInt64Range v
  integer_eq : ∀ n, ofNumber? lexeme = some (integer n) → (n.toInt : ℚ) = v

/-- How a text that spells a number with an exact value is classified. What is no integer is
the nearest floating-point number, and nothing exactly if the value rounds to an infinity. -/
structure IsClassified (lexeme : String) (v : ℚ) : Prop extends ReadsIntegers lexeme v where
  none_iff : ofNumber? lexeme = none ↔ overflowThreshold ≤ |v|
  exists_float : ¬(IsPlain lexeme ∧ InInt64Range v) → |v| < overflowThreshold →
    ∃ x, ofNumber? lexeme = some (float x) ∧ x.IsNearest v ∧
      (x.negative = true ↔ lexeme.toList.head? = some '-')

section Range

/-- The range of the integers of 64 bits. -/
theorem inInt64Range_intCast (k : ℤ) :
    InInt64Range k ↔ Int64.minValue.toInt ≤ k ∧ k ≤ Int64.maxValue.toInt := by
  have hMin : Int64.minValue.toInt = -(2 ^ 63) := by decide
  have hMax : Int64.maxValue.toInt = 2 ^ 63 - 1 := by decide
  rw [InInt64Range, hMin, hMax]
  norm_cast

/-- The integers of 64 bits do not round to an infinity. -/
theorem abs_lt_overflowThreshold {v : ℚ} (h : InInt64Range v) : |v| < overflowThreshold := by
  have hThreshold : (2 : ℚ) ^ 63 < overflowThreshold := by
    have hPowers : ((2 ^ 63 + 2 ^ 970 : ℕ) : ℚ) < (2 ^ 1024 : ℕ) := Nat.cast_lt.2 (by decide +kernel)
    rw [Nat.cast_add, Nat.cast_pow, Nat.cast_pow, Nat.cast_pow, Nat.cast_ofNat] at hPowers
    exact lt_sub_iff_add_lt.2 hPowers
  exact abs_lt.2 ⟨by linarith [h.1], by linarith [h.2]⟩

end Range

section Numeral

variable {n : Numeral} {v : ℚ}

/-- Numbers that round to infinity are no floating-point literals. -/
theorem ofNumeralFloat?_eq_none_iff (h : n.IsRoundedFrom v) :
    ofNumeralFloat? n = none ↔ overflowThreshold ≤ |v| := by
  have hTooLarge : n.isTooLarge = !n.converted.isFinite := rfl
  rw [ofNumeralFloat?_eq_none, hTooLarge, Bool.not_eq_true']
  refine ⟨fun hInfinite => not_lt.1 fun hSmall => ?_, h.overflows⟩
  rw [(h.isNearest hSmall).isFinite] at hInfinite
  cases hInfinite

/-- A number below the threshold is read as the number nearest to it. -/
theorem exists_ofNumeralFloat?_eq (h : n.IsRoundedFrom v) (hSmall : |v| < overflowThreshold) :
    ∃ x, ofNumeralFloat? n = some (float x) ∧ x.IsNearest v ∧ x.negative = n.negative := by
  have hNearest := h.isNearest hSmall
  exact ⟨n.converted, if_pos hNearest.isFinite, hNearest, ofDecimal_negative _ _ _⟩

private theorem ofNumeralFloat?_ne_integer (k : Int64) : ofNumeralFloat? n ≠ some (integer k) := by
  simp only [ofNumeralFloat?]
  split <;> simp

/-- Plain numbers in the range are read as integers, all others as floating-point numbers. -/
theorem ofNumeral?_cases (hInteger : n.isIntegral = true → v = n.integer) :
    (n.isIntegral = true ∧ InInt64Range v → ∃ k, ofNumeral? n = some (integer k) ∧ (k.toInt : ℚ) = v) ∧
      (¬(n.isIntegral = true ∧ InInt64Range v) → ofNumeral? n = ofNumeralFloat? n) := by
  rw [ofNumeral?]
  split
  · next hIntegral =>
    rw [hInteger hIntegral, inInt64Range_intCast]
    constructor
    · rintro ⟨-, hRange⟩
      refine ⟨Int64.ofInt n.integer, ?_, ?_⟩
      · rw [ofInt?_eq_some.2 ⟨hRange, rfl⟩]
        rfl
      · rw [Int64.toInt_ofInt_of_le hRange.1 (Int.lt_add_one_of_le hRange.2)]
    · intro hNot
      rw [ofInt?, if_neg fun hRange => hNot ⟨hIntegral, hRange⟩]
      rfl
  · next hNot => exact ⟨fun h => absurd h.1 hNot, fun _ => rfl⟩

end Numeral

section Spelling

variable {spelling : Spelling}

/-- A spelling is classified by the value that it is rounded from. -/
theorem isClassified_of_isRoundedFrom {v : ℚ} (h : spelling.numeral.IsRoundedFrom v)
    (hInteger : spelling.numeral.isIntegral = true → v = spelling.numeral.integer) :
    IsClassified (String.ofList spelling.text) v := by
  obtain ⟨hIntegers, hFloats⟩ := ofNumeral?_cases hInteger
  rw [← spelling.isPlain_iff, ← ofNumber?_text] at hIntegers hFloats
  by_cases hPlain : IsPlain (String.ofList spelling.text) ∧ InInt64Range v
  · obtain ⟨k, hRead, hValue⟩ := hIntegers hPlain
    refine ⟨⟨iff_of_true ⟨k, hRead⟩ hPlain, fun other hOther => ?_⟩, ?_,
      fun hNot => absurd hPlain hNot⟩
    · cases hRead.symm.trans hOther
      exact hValue
    · rw [hRead]
      exact iff_of_false nofun (not_le.2 (abs_lt_overflowThreshold hPlain.2))
  · have hFloat := hFloats hPlain
    have hNoInteger : ∀ k, ofNumber? (String.ofList spelling.text) ≠ some (integer k) := by
      rw [hFloat]
      exact ofNumeralFloat?_ne_integer
    refine ⟨⟨iff_of_false (fun ⟨k, hk⟩ => hNoInteger k hk) hPlain,
      fun k hk => absurd hk (hNoInteger k)⟩, ?_, fun _ hSmall => ?_⟩
    · rw [hFloat]
      exact ofNumeralFloat?_eq_none_iff h
    · obtain ⟨x, hx, hNearest, hNegative⟩ := exists_ofNumeralFloat?_eq h hSmall
      refine ⟨x, hFloat.trans hx, hNearest, ?_⟩
      rw [hNegative, String.toList_ofList]
      exact spelling.negative_iff

end Spelling

section Classification

variable (spelling : Spelling)

/-- Every number is classified by its value with the exponent as it counts. -/
theorem isClassified_countedValue :
    IsClassified (String.ofList spelling.text) spelling.numeral.countedValue := by
  apply isClassified_of_isRoundedFrom (Numeral.isRoundedFrom_countedValue _)
  intro hIntegral
  rw [Numeral.countedValue_eq (Numeral.countsInFull_of_isIntegral hIntegral),
    Numeral.value_of_isIntegral hIntegral]

variable {spelling}

/-- A number that is rounded correctly is classified by its exact value. -/
theorem isClassified_value (h : spelling.numeral.RoundsCorrectly) :
    IsClassified (String.ofList spelling.text) spelling.numeral.value :=
  isClassified_of_isRoundedFrom h Numeral.value_of_isIntegral

/-- Only plain texts are read as integers, and these have no exponent that could count less. -/
theorem readsIntegers_value :
    ReadsIntegers (String.ofList spelling.text) spelling.numeral.value := by
  have hClassified (hPlain : IsPlain (String.ofList spelling.text)) :
      IsClassified (String.ofList spelling.text) spelling.numeral.value :=
    isClassified_value (Numeral.roundsCorrectly spelling.isDigits_append
      (.inl (Numeral.countsInFull_of_isIntegral (spelling.isPlain_iff.1 hPlain))))
  have hPlain {n : Int64} (h : ofNumber? (String.ofList spelling.text) = some (integer n)) :
      IsPlain (String.ofList spelling.text) :=
    ((isClassified_countedValue spelling).integer_iff.1 ⟨n, h⟩).1
  refine ⟨⟨?_, fun h => (hClassified h.1).integer_iff.2 h⟩,
    fun n h => (hClassified (hPlain h)).integer_eq n h⟩
  rintro ⟨n, h⟩
  exact (hClassified (hPlain h)).integer_iff.1 ⟨n, h⟩

/-- A text that the rule of numbers matches as a whole is read as an integer exactly if it is
plain and its exact value is in the range, and classified by its exact value if the conversion to
floating-point numbers rounds it correctly. The conversion does if the exponent counts in full or
the other digits are few. In any case the text is classified by its value with the exponent as it
counts. -/
theorem classifiesNumber {lexeme : String}
    (hNumber : Rule.number.readsWhole lexeme.toList = true) :
    ∃ spelling : Spelling, lexeme.toList = spelling.text ∧
      ReadsIntegers lexeme spelling.numeral.value ∧
      (spelling.numeral.RoundsCorrectly → IsClassified lexeme spelling.numeral.value) ∧
      (spelling.numeral.CountsInFull ∨ spelling.numeral.IsShort →
        spelling.numeral.RoundsCorrectly) ∧
      IsClassified lexeme spelling.numeral.countedValue := by
  obtain ⟨spelling, hText⟩ := readsWhole_number_iff.1 hNumber
  obtain rfl : lexeme = String.ofList spelling.text := by rw [← hText, String.ofList_toList]
  exact ⟨spelling, hText, readsIntegers_value, isClassified_value,
    Numeral.roundsCorrectly spelling.isDigits_append, isClassified_countedValue spelling⟩

/-- An integer that 64 bits do not hold is read as the nearest floating-point number. -/
theorem classifiesNumber_large :
    Rule.number.readsWhole "99999999999999999999".toList = true ∧
      ofNumber? "99999999999999999999" = some (float (ofInt 100000000000000000000)) ∧
      ∃ spelling : Spelling, "99999999999999999999".toList = spelling.text ∧
        spelling.numeral.RoundsCorrectly ∧
        IsClassified "99999999999999999999" spelling.numeral.value := by
  have hNumber : Rule.number.readsWhole "99999999999999999999".toList = true := by decide +kernel
  obtain ⟨spelling, hText, -, hClassified, hRounds, -⟩ := classifiesNumber hNumber
  have hShort : spelling.numeral.IsShort := by
    apply spelling.isShort_of_length_le
    rw [← hText]
    decide +kernel
  have hCorrect := hRounds (.inr hShort)
  exact ⟨hNumber, by decide +kernel, spelling, hText, hCorrect, hClassified hCorrect⟩

end Classification

end Literal

end RowFilter
