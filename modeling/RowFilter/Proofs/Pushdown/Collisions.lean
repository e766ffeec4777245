import RowFilter.Proofs.Pushdown.Conversion
import RowFilter.Proofs.Pushdown.Membership
import RowFilter.Proofs.Syntax.Parse

/-! Conditions with equal triples. They say the same but for null checks, whose
triples are those of comparisons with the text that stands for null. -/

namespace RowFilter

open Literal (Covers)

namespace Condition

/-- Conditions of one kind on one column, with one operator or negation and with equal values. -/
def SaysSame : Condition → Condition → Prop
  | comparison left operator (.literal value), comparison other otherOperator (.literal otherValue) =>
    left.name = other.name ∧ operator = otherOperator ∧ value.equals otherValue = true
  | nullCheck column negated, nullCheck other otherNegated =>
    column.name = other.name ∧ negated = otherNegated
  | membership column negated values, membership other otherNegated others =>
    column.name = other.name ∧ negated = otherNegated ∧ Covers values others ∧ Covers others values
  | _, _ => False

/-- A null check, and a comparison of its column with the text that stands for null: by equality,
or by inequality if the check is negated. -/
def IsNullCompared : Condition → Condition → Prop
  | nullCheck column negated, comparison left operator (.literal value) =>
    column.name = left.name ∧ operator = (if negated then .notEqual else .equal) ∧
      value = .text "null"
  | _, _ => False

end Condition

namespace Pushdown

/-- Triples are equal if their parts are. -/
theorem Triple.equals_iff {a b : Triple} : a.equals b = true ↔
    a.column = b.column ∧ a.operator = b.operator ∧ a.value.equals b.value = true := by
  simp only [equals, Bool.and_eq_true, decide_eq_true_eq, and_assoc]

theorem Value.equals_null_iff {value : Literal} :
    (literal value).equals null = true ↔ value = .text "null" := by
  cases value <;> simp [equals, null, Literal.equals]

private theorem Value.null_equals_null : null.equals null = true :=
  equals_null_iff.2 rfl

private theorem Value.null_equals_iff {value : Literal} :
    null.equals (literal value) = true ↔ value = .text "null" := by
  rw [null, equals, Literal.equals_comm]
  exact equals_null_iff

/-- The conditions that have a triple: all but comparisons of two columns. -/
theorem Triple.ofCondition?_cases {condition : Condition} {triple : Triple}
    (h : ofCondition? condition = some triple) :
    (∃ left operator value, condition = .comparison left operator (.literal value) ∧
        triple = ⟨left.name, .compare operator, .literal value⟩) ∨
      (∃ column negated, condition = .nullCheck column negated ∧
        triple = ⟨column.name, .compare (if negated then .notEqual else .equal), .null⟩) ∨
      ∃ column negated values, condition = .membership column negated values ∧
        triple = ⟨column.name, if negated then .notIn else .isIn, .set (.ofList values)⟩ := by
  cases condition with
  | comparison left operator right =>
    cases right with
    | column right => cases h
    | literal value => exact .inl ⟨left, operator, value, rfl, (Option.some.inj h).symm⟩
  | nullCheck column negated =>
    exact .inr (.inl ⟨column, negated, rfl, (Option.some.inj h).symm⟩)
  | membership column negated values =>
    exact .inr (.inr ⟨column, negated, values, rfl, (Option.some.inj h).symm⟩)

/-- An operator stands for each polarity. -/
theorem ite_inj {α : Type} {a b : α} (h : a ≠ b) (negated other : Bool) :
    (if negated then a else b) = (if other then a else b) ↔ negated = other := by
  cases negated <;> cases other <;> simp [h, h.symm]

/-- Conditions have equal triples exactly if they say the same, or one of them is a null check and
the other one compares the same column with the text that stands for null. -/
theorem Triple.equals_ofCondition?_iff {condition other : Condition} {triple otherTriple : Triple}
    (h : ofCondition? condition = some triple) (hOther : ofCondition? other = some otherTriple) :
    triple.equals otherTriple = true ↔ condition.SaysSame other ∨
      condition.IsNullCompared other ∨ other.IsNullCompared condition := by
  rw [Triple.equals_iff]
  obtain ⟨left, operator, value, rfl, rfl⟩ | ⟨column, negated, rfl, rfl⟩ |
    ⟨column, negated, values, rfl, rfl⟩ := ofCondition?_cases h
  · obtain ⟨other, otherOperator, otherValue, rfl, rfl⟩ | ⟨column, negated, rfl, rfl⟩ |
      ⟨column, negated, values, rfl, rfl⟩ := ofCondition?_cases hOther
    · simp [Condition.SaysSame, Condition.IsNullCompared, Value.equals]
    · simp [Condition.SaysSame, Condition.IsNullCompared, Value.equals_null_iff,
        eq_comm (a := left.name)]
    · simp [Condition.SaysSame, Condition.IsNullCompared, Value.equals]
  · obtain ⟨other, operator, value, rfl, rfl⟩ | ⟨other, otherNegated, rfl, rfl⟩ |
      ⟨other, otherNegated, values, rfl, rfl⟩ := ofCondition?_cases hOther
    · simp [Condition.SaysSame, Condition.IsNullCompared, Value.null_equals_iff,
        eq_comm (a := operator)]
    · have hPolarity := ite_inj (a := Comparison.notEqual) (b := .equal) (by decide) negated
        otherNegated
      simp [Condition.SaysSame, Condition.IsNullCompared, Value.null_equals_null, hPolarity]
    · simp [Condition.SaysSame, Condition.IsNullCompared, Value.equals, Value.null]
  · obtain ⟨other, operator, value, rfl, rfl⟩ | ⟨other, otherNegated, rfl, rfl⟩ |
      ⟨other, otherNegated, others, rfl, rfl⟩ := ofCondition?_cases hOther
    · simp [Condition.SaysSame, Condition.IsNullCompared, Value.equals]
    · simp [Condition.SaysSame, Condition.IsNullCompared, Value.equals, Value.null]
    · have hPolarity := ite_inj (a := Operator.notIn) (b := .isIn) (by decide) negated
        otherNegated
      simp [Condition.SaysSame, Condition.IsNullCompared, Value.equals, hPolarity,
        LiteralSet.equals_ofList_iff]

/-- Lists that give the values in another order, another zero and one value twice. -/
theorem Triple.equals_ofCondition?_iff_zeros :
    ∃ triple otherTriple,
      ofCondition? (.membership ⟨"a", .none⟩ true [.float (.ofBits 0), .text "b", .text "b"]) =
        some triple ∧
      ofCondition? (.membership ⟨"a", .none⟩ true
        [.text "b", .float (.ofBits 0x8000000000000000)]) = some otherTriple ∧
      triple ≠ otherTriple ∧ triple.equals otherTriple = true := by
  let values : List Literal := [.float (.ofBits 0), .text "b", .text "b"]
  let others : List Literal := [.text "b", .float (.ofBits 0x8000000000000000)]
  have hSame : Condition.SaysSame (.membership ⟨"a", .none⟩ true values)
      (.membership ⟨"a", .none⟩ true others) :=
    ⟨rfl, rfl, by decide, by decide⟩
  exact ⟨_, _, rfl, rfl, by decide, (equals_ofCondition?_iff rfl rfl).2 (.inl hSame)⟩

/-- A null check and a comparison with the text that stands for null have one form, though they
are conditions of different kinds. -/
theorem Triple.equals_of_isNullCompared :
    ∃ check comparison span otherSpan triple,
      Filter.parse "a IS NULL" = .ok (.condition check span) ∧
      Filter.parse "a = 'null'" = .ok (.condition comparison otherSpan) ∧
      ofCondition? check = some triple ∧ ofCondition? comparison = some triple ∧
      triple.equals triple = true ∧ ¬check.SaysSame comparison ∧
      Compile.dnf "a IS NULL" = .ok ⟨[[triple]]⟩ ∧ Compile.dnf "a = 'null'" = .ok ⟨[[triple]]⟩ := by
  let check : Condition := .nullCheck ⟨"a", ⟨0, 1, 1, 1⟩⟩ false
  let comparison : Condition := .comparison ⟨"a", ⟨0, 1, 1, 1⟩⟩ .equal (.literal (.text "null"))
  have hCheck : Filter.parse "a IS NULL" = .ok (.condition check ⟨0, 9, 1, 1⟩) :=
    Filter.parse_of_toOption (by decide +kernel)
  have hComparison : Filter.parse "a = 'null'" = .ok (.condition comparison ⟨0, 10, 1, 1⟩) :=
    Filter.parse_of_toOption (by decide +kernel)
  exact ⟨check, comparison, _, _, ⟨"a", .compare .equal, .null⟩, hCheck, hComparison, rfl, rfl,
    by decide, id, Compile.dnf_condition hCheck rfl, Compile.dnf_condition hComparison rfl⟩

end Pushdown

end RowFilter
