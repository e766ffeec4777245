import RowFilter.Proofs.Decimal.Layout
import RowFilter.Proofs.Filter.Number

/-! The canonical texts of numbers. Reading the canonical text of an integer
or of a finite floating-point number gives the same literal again. -/

namespace RowFilter

namespace Literal

/-- Whether a spelling is the canonical text of a literal and is read as it. -/
structure IsSpelledBy (value : Literal) (spelling : Spelling) : Prop where
  canonical_eq : value.canonical.toList = spelling.text
  ofNumeral?_eq : ofNumeral? spelling.numeral = some value

/-- Every integer of 64 bits has a canonical spelling. -/
theorem exists_spelling_integer (n : Int64) :
    ∃ spelling, (integer n).IsSpelledBy spelling := by
  obtain ⟨spelling, hText, hIntegral, hInteger⟩ := exists_spelling_toString n.toInt
  refine ⟨spelling, hText, ?_⟩
  have hRange : Int64.minValue.toInt ≤ n.toInt ∧ n.toInt ≤ Int64.maxValue.toInt :=
    ⟨n.minValue_le_toInt, n.toInt_le⟩
  have hSome : ofInt? n.toInt = some (integer n) :=
    ofInt?_eq_some.2 ⟨hRange, by rw [Int64.ofInt_toInt]⟩
  rw [ofNumeral?, if_pos hIntegral, hInteger, hSome]
  rfl

/-- Every finite floating-point number has a canonical spelling. -/
theorem exists_spelling_float {x : Binary64} (hFinite : x.isFinite = true) :
    ∃ spelling, (float x).IsSpelledBy spelling := by
  have hNaN : x.isNaN = false := by
    have hLt : x.magnitude < Binary64.infinity := of_decide_eq_true hFinite
    exact decide_eq_false (Nat.lt_asymm hLt)
  obtain ⟨spelling, hText, hIntegral, hValue⟩ :=
    FloatLayout.exists_spelling floatLayout .none rfl rfl hFinite
  refine ⟨spelling, ?_, ?_⟩
  · rwa [canonical, showFloat, hNaN, if_neg Bool.false_ne_true, if_pos hFinite]
  · have hNot : ¬spelling.numeral.isIntegral = true := Bool.not_eq_true _ ▸ hIntegral
    simp only [ofNumeral?, if_neg hNot, ofNumeralFloat?, hValue, if_pos hFinite]

end Literal

end RowFilter
