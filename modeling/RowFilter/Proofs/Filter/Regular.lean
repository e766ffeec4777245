import RowFilter.Proofs.Filter.Truth

/-! The filters that texts spell: only conditions are negated, a condition
of membership has a value, and floating-point numbers are finite. -/

namespace RowFilter

/-- Infinities and what is not a number have no spelling. -/
def Literal.IsRegular : Literal → Prop
  | .integer _ => True
  | .float x => x.isFinite = true
  | .text _ => True

def Operand.IsRegular : Operand → Prop
  | .column _ => True
  | .literal value => value.IsRegular

def Condition.IsRegular : Condition → Prop
  | .comparison _ _ right => right.IsRegular
  | .nullCheck _ _ => True
  | .membership _ _ values => values ≠ [] ∧ ∀ value ∈ values, value.IsRegular

/-- Filters with regular conditions that negate conditions only. -/
inductive Filter.IsRegular : Filter → Prop where
  | condition {c : Condition} {span : Span} (h : c.IsRegular) : IsRegular (.condition c span)
  | and {left right : Filter} {span : Span} (hLeft : left.IsRegular) (hRight : right.IsRegular) :
      IsRegular (.and left right span)
  | or {left right : Filter} {span : Span} (hLeft : left.IsRegular) (hRight : right.IsRegular) :
      IsRegular (.or left right span)
  | negation {c : Condition} {inner span : Span} (h : c.IsRegular) :
      IsRegular (.not (.condition c inner) span)

namespace Filter

/-- Whether a filter is a conjunction or a disjunction. -/
def isChain : Filter → Bool
  | and _ _ _ => true
  | or _ _ _ => true
  | _ => false

/-- Whether negations cover conditions and negations only. -/
def negatesNoChain : Filter → Bool
  | condition _ _ => true
  | and left right _ => left.negatesNoChain && right.negatesNoChain
  | or left right _ => left.negatesNoChain && right.negatesNoChain
  | not operand _ => !operand.isChain && operand.negatesNoChain

/-- Regular filters negate no chains. -/
theorem IsRegular.negatesNoChain {filter : Filter} (h : filter.IsRegular) :
    filter.negatesNoChain = true := by
  induction h with
  | condition | negation => rfl
  | and _ _ ihLeft ihRight | or _ _ ihLeft ihRight =>
    rw [Filter.negatesNoChain, ihLeft, ihRight]
    rfl

/-- The conditions of a regular filter are regular. -/
theorem IsRegular.of_mem_conditions {filter : Filter} (h : filter.IsRegular) :
    ∀ c ∈ filter.conditions, c.IsRegular := by
  induction h with
  | condition h | negation h => exact fun c hc => List.mem_singleton.1 hc ▸ h
  | and _ _ ihLeft ihRight | or _ _ ihLeft ihRight =>
    exact List.forall_mem_append.2 ⟨ihLeft, ihRight⟩

end Filter

/-- Regular filters are joined to a regular one. -/
theorem Connective.join_isRegular (connective : Connective) {left right : Filter}
    (hLeft : left.IsRegular) (hRight : right.IsRegular) (span : Span) :
    (connective.join left right span).IsRegular := by
  cases connective with
  | and => exact .and hLeft hRight
  | or => exact .or hLeft hRight

end RowFilter
