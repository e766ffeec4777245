import RowFilter.Proofs.Binary64.Rounding
import RowFilter.Proofs.Decimal.Spelling
import RowFilter.Proofs.Filter.Regular

/-! Numbers as literals. A written number is a literal unless it is too large
for a floating-point number: integers that 64 bits hold are not. -/

namespace RowFilter

/-- Whether a number rounds to an infinity. -/
def Numeral.isTooLarge (n : Numeral) : Bool :=
  !(Binary64.ofDecimal n.negative n.significand n.scale).isFinite

/-- Whether a text spells a number that rounds to an infinity. -/
def isTooLarge (lexeme : String) : Bool :=
  (Numeral.read? lexeme.toList).any Numeral.isTooLarge

namespace Literal

/-- A number is no floating-point literal exactly if it is too large. -/
theorem ofNumeralFloat?_eq_none {n : Numeral} : ofNumeralFloat? n = none ↔ n.isTooLarge = true := by
  cases h : (Binary64.ofDecimal n.negative n.significand n.scale).isFinite <;>
    simp [ofNumeralFloat?, Numeral.isTooLarge, h]

/-- The integer literals are those that 64 bits hold. -/
theorem ofInt?_eq_some {n : Int} {literal : Literal} :
    ofInt? n = some literal ↔ (Int64.minValue.toInt ≤ n ∧ n ≤ Int64.maxValue.toInt) ∧
      literal = integer (Int64.ofInt n) := by
  rw [ofInt?]
  split
  · next hRange => exact ⟨fun h => ⟨hRange, (Option.some.inj h).symm⟩, fun h => by rw [h.2]⟩
  · next hRange => exact ⟨nofun, fun h => absurd h.1 hRange⟩

private theorem not_isTooLarge {n : Numeral} {literal : Literal} (hIntegral : n.isIntegral = true)
    (h : ofInt? n.integer = some literal) : n.isTooLarge = false := by
  obtain ⟨negative, whole, fraction, exponent⟩ := n
  obtain ⟨hFraction, hExponent⟩ := Bool.and_eq_true_iff.1 hIntegral
  obtain rfl : fraction = none := Option.isNone_iff_eq_none.1 hFraction
  obtain rfl : exponent = none := Option.isNone_iff_eq_none.1 hExponent
  have hRange : (SignedDigits.applySign negative (digitsValue whole)).natAbs ≤ 2 ^ 63 := by
    obtain ⟨hLow, hHigh⟩ := (ofInt?_eq_some.1 h).1
    change _ ≤ SignedDigits.applySign negative (digitsValue whole) at hLow
    change SignedDigits.applySign negative (digitsValue whole) ≤ _ at hHigh
    have hMin : Int64.minValue.toInt = -(2 ^ 63 : Nat) := by decide
    have hMax : Int64.maxValue.toInt < (2 ^ 63 : Nat) := by decide
    omega
  have hAbs : (SignedDigits.applySign negative (digitsValue whole)).natAbs = digitsValue whole := by
    cases negative <;> simp [SignedDigits.applySign]
  rw [hAbs] at hRange
  have hLog : (digitsValue whole).log2 < 1023 := by
    by_cases hZero : digitsValue whole = 0
    · rw [hZero]
      decide
    · have hLt : (digitsValue whole).log2 < 64 := (Nat.log2_lt hZero).2 (by omega)
      omega
  have hSignificand : Numeral.significand ⟨negative, whole, none, none⟩ = digitsValue whole := by
    rw [Numeral.significand, Option.getD_none, List.append_nil]
  rw [Numeral.isTooLarge, hSignificand]
  exact congrArg (!·) (Binary64.ofDecimal_isFinite negative hLog)

/-- A number is no literal exactly if it is too large. -/
theorem ofNumeral?_eq_none {n : Numeral} : ofNumeral? n = none ↔ n.isTooLarge = true := by
  rw [ofNumeral?]
  split
  · next hIntegral =>
    cases h : ofInt? n.integer with
    | none => exact ofNumeralFloat?_eq_none
    | some literal => simp [not_isTooLarge hIntegral h]
  · exact ofNumeralFloat?_eq_none

/-- A spelling is the literal of its number. -/
theorem ofNumber?_text {spelling : Spelling} :
    ofNumber? (String.ofList spelling.text) = ofNumeral? spelling.numeral := by
  rw [ofNumber?, String.toList_ofList, Numeral.read?_text, Option.bind_some]

/-- A spelled number is no literal exactly if it is too large. -/
theorem ofNumber?_eq_none {spelling : Spelling} :
    ofNumber? (String.ofList spelling.text) = none ↔
      isTooLarge (String.ofList spelling.text) = true := by
  rw [ofNumber?_text, ofNumeral?_eq_none, isTooLarge, String.toList_ofList, Numeral.read?_text]
  rfl

private theorem exists_float_of_ofNumeralFloat? {n : Numeral} {literal : Literal}
    (h : ofNumeralFloat? n = some literal) : ∃ x : Binary64, literal = float x ∧ x.isFinite = true := by
  simp only [ofNumeralFloat?] at h
  split at h
  · next hFinite =>
    cases h
    exact ⟨_, rfl, hFinite⟩
  · cases h

/-- Numbers are read as integers and as finite floating-point numbers. -/
theorem ofNumber?_cases {lexeme : String} {literal : Literal}
    (h : ofNumber? lexeme = some literal) :
    (∃ n, literal = integer n) ∨ ∃ x : Binary64, literal = float x ∧ x.isFinite = true := by
  obtain ⟨n, -, hNumeral⟩ := Option.bind_eq_some_iff.1 h
  rw [ofNumeral?] at hNumeral
  split at hNumeral
  · cases hInt : ofInt? n.integer with
    | none =>
      rw [hInt] at hNumeral
      exact .inr (exists_float_of_ofNumeralFloat? hNumeral)
    | some other =>
      rw [hInt] at hNumeral
      cases hNumeral
      exact .inl ⟨_, (ofInt?_eq_some.1 hInt).2⟩
  · exact .inr (exists_float_of_ofNumeralFloat? hNumeral)

/-- Numbers that are read are finite. -/
theorem isRegular_of_ofNumber? {lexeme : String} {literal : Literal}
    (h : ofNumber? lexeme = some literal) : literal.IsRegular := by
  rcases ofNumber?_cases h with ⟨n, rfl⟩ | ⟨x, rfl, hFinite⟩
  · trivial
  · exact hFinite

end Literal

end RowFilter
