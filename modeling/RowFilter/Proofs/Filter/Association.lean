import RowFilter.Proofs.Filter.Truth

/-! Filters up to the association of chains. A chain of one connective has
the same conditions in the same order however it is nested, and the same
truth value under every assignment. -/

namespace RowFilter

namespace Filter

/-- Filters that differ in the association of chains of one connective. Spans
of connectives and negations do not matter. -/
inductive Reassociates : Filter → Filter → Prop where
  | refl (filter : Filter) : Reassociates filter filter
  | symm {first second : Filter} (h : Reassociates first second) : Reassociates second first
  | trans {first second third : Filter} (h : Reassociates first second)
      (hNext : Reassociates second third) : Reassociates first third
  | assoc (connective : Connective) (first second third : Filter) (a b c d : Span) :
      Reassociates (connective.join (connective.join first second a) third b)
        (connective.join first (connective.join second third c) d)
  | join (connective : Connective) {left right otherLeft otherRight : Filter} (a b : Span)
      (hLeft : Reassociates left otherLeft) (hRight : Reassociates right otherRight) :
      Reassociates (connective.join left right a) (connective.join otherLeft otherRight b)
  | not {operand other : Filter} (a b : Span) (h : Reassociates operand other) :
      Reassociates (.not operand a) (.not other b)

@[simp] theorem conditions_join (connective : Connective) (left right : Filter) (span : Span) :
    (connective.join left right span).conditions = left.conditions ++ right.conditions := by
  cases connective <;> rfl

@[simp] theorem evalAt_join (v : Assignment) (first : Nat) (connective : Connective)
    (left right : Filter) (span : Span) :
    (connective.join left right span).evalAt v first =
      connective.truth (left.evalAt v first)
        (right.evalAt v (first + left.conditions.length)) := by
  cases connective <;> rfl

/-- Association changes neither the conditions nor their order. -/
theorem Reassociates.conditions_eq {filter other : Filter} (h : Reassociates filter other) :
    filter.conditions = other.conditions := by
  induction h with
  | refl => rfl
  | symm _ ih => exact ih.symm
  | trans _ _ ih ihNext => exact ih.trans ihNext
  | assoc => simp only [conditions_join, List.append_assoc]
  | join _ _ _ _ _ ihLeft ihRight => simp only [conditions_join, ihLeft, ihRight]
  | not _ _ _ ih => exact ih

/-- Association does not change the truth value. -/
theorem Reassociates.evalAt_eq {filter other : Filter} (h : Reassociates filter other)
    (v : Assignment) (first : Nat) : filter.evalAt v first = other.evalAt v first := by
  induction h generalizing first with
  | refl => rfl
  | symm _ ih => exact (ih first).symm
  | trans _ _ ih ihNext => exact (ih first).trans (ihNext first)
  | assoc =>
    simp only [evalAt_join, conditions_join, List.length_append, Connective.truth_assoc,
      Nat.add_assoc]
  | join _ _ _ hLeft _ ihLeft ihRight =>
    simp only [evalAt_join, hLeft.conditions_eq, ihLeft, ihRight]
  | not _ _ _ ih => exact congrArg Truth.not (ih first)

end Filter

end RowFilter
