import RowFilter.Filter.Basic

/-! Filters in three-valued logic. An assignment gives a truth value to each
occurrence of a condition, counted from left to right, so two filters with
the same conditions can be compared whatever the conditions mean. -/

namespace RowFilter

/-- The truth values of conditions on rows with nulls. -/
inductive Truth where
  | false
  | unknown
  | true
deriving DecidableEq, Repr

namespace Truth

/-- The lesser of two truth values. -/
def and : Truth → Truth → Truth
  | false, _ => false
  | _, false => false
  | true, b => b
  | a, true => a
  | unknown, unknown => unknown

/-- The greater of two truth values. -/
def or : Truth → Truth → Truth
  | true, _ => true
  | _, true => true
  | false, b => b
  | a, false => a
  | unknown, unknown => unknown

def not : Truth → Truth
  | false => true
  | unknown => unknown
  | true => false

theorem and_assoc (a b c : Truth) : (a.and b).and c = a.and (b.and c) := by
  cases a <;> cases b <;> cases c <;> rfl

theorem or_assoc (a b c : Truth) : (a.or b).or c = a.or (b.or c) := by
  cases a <;> cases b <;> cases c <;> rfl

@[simp] theorem and_true (a : Truth) : a.and true = a := by cases a <;> rfl

@[simp] theorem true_and (a : Truth) : true.and a = a := by cases a <;> rfl

@[simp] theorem or_false (a : Truth) : a.or false = a := by cases a <;> rfl

@[simp] theorem false_or (a : Truth) : false.or a = a := by cases a <;> rfl

end Truth

def Connective.truth : Connective → Truth → Truth → Truth
  | .and => Truth.and
  | .or => Truth.or

/-- Connectives are associative. -/
theorem Connective.truth_assoc (connective : Connective) (a b c : Truth) :
    connective.truth (connective.truth a b) c = connective.truth a (connective.truth b c) := by
  cases connective with
  | and => exact Truth.and_assoc a b c
  | or => exact Truth.or_assoc a b c

/-- An assignment of truth values to occurrences of conditions, by their number. -/
abbrev Assignment := Nat → Truth

namespace Filter

/-- The conditions of a filter, left to right. -/
def conditions : Filter → List Condition
  | condition c _ => [c]
  | and left right _ => left.conditions ++ right.conditions
  | or left right _ => left.conditions ++ right.conditions
  | not operand _ => operand.conditions

/-- The truth value of a filter whose first condition has the given number. -/
def evalAt (v : Assignment) (first : Nat) : Filter → Truth
  | condition _ _ => v first
  | and left right _ =>
    (left.evalAt v first).and (right.evalAt v (first + left.conditions.length))
  | or left right _ =>
    (left.evalAt v first).or (right.evalAt v (first + left.conditions.length))
  | not operand _ => (operand.evalAt v first).not

def eval (v : Assignment) (filter : Filter) : Truth :=
  filter.evalAt v 0

end Filter

end RowFilter
