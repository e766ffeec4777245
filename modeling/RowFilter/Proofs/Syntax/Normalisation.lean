import RowFilter.Polish
import RowFilter.Postgres.Condition
import RowFilter.Proofs.Filter.Canonical
import RowFilter.Proofs.Syntax.Words

/-! Numbers in their canonical text. The rule of numbers reads a spelling as a
whole, and nothing else. The canonical text of a number is a spelling of it,
with a point or an exponent exactly for floating-point numbers, so reading
the text gives the literal again and writing it once more changes nothing. -/

namespace RowFilter

open Grammar

/-- The rule of numbers reads exactly the spellings as a whole. -/
theorem readsWhole_number_iff {text : List Char} :
    Rule.number.readsWhole text = true ↔ ∃ spelling : Spelling, text = spelling.text := by
  constructor
  · intro h
    obtain ⟨spelling, hText, -⟩ := exists_spelling_of_takes (takes_of_readsWhole rfl h)
    exact ⟨spelling, hText⟩
  · rintro ⟨spelling, rfl⟩
    apply readsWhole_of_takes rfl
    have hTakes : filterGrammar.Takes spelling.text.length (.rule .number) (spelling.text ++ [])
        spelling.text [] := takes_spelling spelling ⟨trivial, fun _ _ => trivial⟩
    rwa [List.append_nil] at hTakes

namespace Literal

/-- The canonical text of the number that a text spells. -/
def normalise? (lexeme : String) : Option String :=
  (ofNumber? lexeme).map canonical

/-- A literal whose canonical text is a number that is read as this very
literal, also where the literal stands in another notation for filters. -/
structure SurvivesWriting (value : Literal) : Prop where
  readsWhole_canonical : Rule.number.readsWhole value.canonical.toList = true
  ofNumber?_canonical : ofNumber? value.canonical = some value
  ofNumber?_polish : ofNumber? (Polish.operand (.literal value)) = some value
  ofNumber?_postgres : ofNumber? (Postgres.literal value) = some value

/-- A spelled literal is read from its canonical text. -/
theorem IsSpelledBy.ofNumber?_canonical {value : Literal} {spelling : Spelling}
    (h : value.IsSpelledBy spelling) : ofNumber? value.canonical = some value := by
  rw [ofNumber?, h.canonical_eq, Numeral.read?_text, Option.bind_some, h.ofNumeral?_eq]

private theorem postgres_literal_eq {value : Literal} (hNumber : ∀ s, value ≠ .text s) :
    Postgres.literal value = value.canonical := by
  cases value with
  | integer | float => rfl
  | text s => exact absurd rfl (hNumber s)

theorem IsSpelledBy.survives {value : Literal} {spelling : Spelling}
    (h : value.IsSpelledBy spelling) (hNumber : ∀ s, value ≠ .text s) :
    value.SurvivesWriting where
  readsWhole_canonical := readsWhole_number_iff.2 ⟨spelling, h.canonical_eq⟩
  ofNumber?_canonical := h.ofNumber?_canonical
  ofNumber?_polish := h.ofNumber?_canonical
  ofNumber?_postgres := by
    rw [postgres_literal_eq hNumber]
    exact h.ofNumber?_canonical

/-- Every integer is read back from its canonical text. -/
theorem survivesWriting_integer (n : Int64) : (integer n).SurvivesWriting := by
  obtain ⟨spelling, hSpelled⟩ := exists_spelling_integer n
  exact hSpelled.survives nofun

/-- Every finite floating-point number is read back from its canonical text. -/
theorem survivesWriting_float {x : Binary64} (hFinite : x.isFinite = true) :
    (float x).SurvivesWriting := by
  obtain ⟨spelling, hSpelled⟩ := exists_spelling_float hFinite
  exact hSpelled.survives nofun

/-- A number that was read survives writing. -/
theorem survivesWriting_of_ofNumber? {lexeme : String} {value : Literal}
    (h : ofNumber? lexeme = some value) : value.SurvivesWriting := by
  rcases ofNumber?_cases h with ⟨n, rfl⟩ | ⟨x, rfl, hFinite⟩
  · exact survivesWriting_integer n
  · exact survivesWriting_float hFinite

/-- Normalising once more changes nothing. -/
theorem normalise?_normalise? (lexeme : String) :
    (normalise? lexeme).bind normalise? = normalise? lexeme := by
  cases h : ofNumber? lexeme with
  | none => simp [normalise?, h]
  | some value =>
    have hAgain := (survivesWriting_of_ofNumber? h).ofNumber?_canonical
    simp [normalise?, h, hAgain]

/-- Every integer and every finite floating-point number, the negative zero
among them, comes back from its canonical text with its kind and its bits.
Numbers in canonical text stay as they are. -/
theorem survivesWriting :
    (∀ n : Int64, (integer n).SurvivesWriting) ∧
      (∀ x : Binary64, x.isFinite = true → (float x).SurvivesWriting) ∧
      ∀ lexeme, (normalise? lexeme).bind normalise? = normalise? lexeme :=
  ⟨survivesWriting_integer, fun _ => survivesWriting_float, normalise?_normalise?⟩

/-- The least integer, a negative zero and ten to the sixteenth, which is the
least power of ten that is written with an exponent. -/
theorem survivesWriting_extremes :
    (integer Int64.minValue).canonical = "-9223372036854775808" ∧
      ofNumber? "-9223372036854775808" = some (integer Int64.minValue) ∧
      (float (Binary64.ofMagnitude true 0)).canonical = "-0.0" ∧
      ofNumber? "-0.0" = some (float (Binary64.ofMagnitude true 0)) ∧
      (float (Binary64.ofInt 10000000000000000)).canonical = "1e16" ∧
      ofNumber? "1e16" = some (float (Binary64.ofInt 10000000000000000)) := by
  have hInteger : (integer Int64.minValue).canonical = "-9223372036854775808" := by decide +kernel
  have hZero : (float (Binary64.ofMagnitude true 0)).canonical = "-0.0" := by decide +kernel
  have hPower : (float (Binary64.ofInt 10000000000000000)).canonical = "1e16" := by decide +kernel
  obtain ⟨hIntegers, hFloats, -⟩ := survivesWriting
  have hReadInteger := (hIntegers Int64.minValue).ofNumber?_canonical
  have hReadZero := (hFloats (Binary64.ofMagnitude true 0) (by decide)).ofNumber?_canonical
  have hReadPower := (hFloats (Binary64.ofInt 10000000000000000) (by decide +kernel)).ofNumber?_canonical
  rw [hInteger] at hReadInteger
  rw [hZero] at hReadZero
  rw [hPower] at hReadPower
  exact ⟨hInteger, hReadInteger, hZero, hReadZero, hPower, hReadPower⟩

end Literal

end RowFilter
