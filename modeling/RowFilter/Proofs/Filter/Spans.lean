import RowFilter.Proofs.Filter.Truth

/-! Filters without their places in a text. Two filters are the same up to
spans if they are equal once all spans are erased. -/

namespace RowFilter

def Column.eraseSpans (column : Column) : Column := { column with span := .none }

def Operand.eraseSpans : Operand → Operand
  | column c => column c.eraseSpans
  | literal value => literal value

def Condition.eraseSpans : Condition → Condition
  | comparison left operator right => comparison left.eraseSpans operator right.eraseSpans
  | nullCheck column negated => nullCheck column.eraseSpans negated
  | membership column negated values => membership column.eraseSpans negated values

namespace Filter

def eraseSpans : Filter → Filter
  | condition c _ => condition c.eraseSpans .none
  | and left right _ => and left.eraseSpans right.eraseSpans .none
  | or left right _ => or left.eraseSpans right.eraseSpans .none
  | not operand _ => not operand.eraseSpans .none

@[simp] theorem eraseSpans_join (connective : Connective) (left right : Filter) (span : Span) :
    (connective.join left right span).eraseSpans =
      connective.join left.eraseSpans right.eraseSpans .none := by
  cases connective <;> rfl

/-- Erasing spans erases those of the conditions. -/
theorem conditions_eraseSpans (filter : Filter) :
    filter.eraseSpans.conditions = filter.conditions.map Condition.eraseSpans := by
  induction filter with
  | condition => rfl
  | and _ _ _ ihLeft ihRight | or _ _ _ ihLeft ihRight =>
    simp only [eraseSpans, conditions, List.map_append, ihLeft, ihRight]
  | not _ _ ih => exact ih

/-- Spans do not matter for truth. -/
theorem evalAt_eraseSpans (v : Assignment) (first : Nat) (filter : Filter) :
    filter.eraseSpans.evalAt v first = filter.evalAt v first := by
  induction filter generalizing first with
  | condition => rfl
  | and _ _ _ ihLeft ihRight | or _ _ _ ihLeft ihRight =>
    simp only [eraseSpans, evalAt, conditions_eraseSpans, List.length_map, ihLeft, ihRight]
  | not _ _ ih => exact congrArg Truth.not (ih first)

end Filter

end RowFilter
