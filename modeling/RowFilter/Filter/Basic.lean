import RowFilter.Filter.Comparison
import RowFilter.Filter.Literal
import RowFilter.Filter.Span

/-!
Filters: trees of conditions on the columns of a row, joined by `AND`, `OR` and `NOT`.
-/

namespace RowFilter

/-- A column by name. The name keeps its dots and has lost its backticks. -/
structure Column where
  name : String
  span : Span
deriving DecidableEq, Repr

/-- The right side of a comparison. -/
inductive Operand where
  | column (column : Column)
  | literal (value : Literal)
deriving DecidableEq, Repr

/-- A condition without a boolean connective. -/
inductive Condition where
  /-- A column compared with a value or another column. -/
  | comparison (left : Column) (operator : Comparison) (right : Operand)
  /-- Whether a column is null, or is not null if `negated`. -/
  | nullCheck (column : Column) (negated : Bool)
  /-- Whether a column is one of the values, or is none of them if `negated`. -/
  | membership (column : Column) (negated : Bool) (values : List Literal)
deriving DecidableEq, Repr

/-- The column on the left side of a condition. -/
def Condition.column : Condition → Column
  | comparison left _ _ => left
  | nullCheck column _ => column
  | membership column _ _ => column

/-- A filter. Each node carries its span. -/
inductive Filter where
  | condition (condition : Condition) (span : Span)
  | and (left right : Filter) (span : Span)
  | or (left right : Filter) (span : Span)
  | not (operand : Filter) (span : Span)
deriving DecidableEq, Repr

/-- The two connectives that join filters. -/
inductive Connective where
  | and
  | or
deriving DecidableEq, Repr

def Connective.join : Connective → Filter → Filter → Span → Filter
  | and => Filter.and
  | or => Filter.or

namespace Filter

/-- Where a filter stands in its text. -/
def span : Filter → Span
  | condition _ span => span
  | and _ _ span => span
  | or _ _ span => span
  | not _ span => span

def isCondition : Filter → Bool
  | condition _ _ => true
  | _ => false

def isNegation : Filter → Bool
  | not _ _ => true
  | _ => false

/-- The filters directly below a node, left to right. -/
def children : Filter → List Filter
  | condition _ _ => []
  | and left right _ => [left, right]
  | or left right _ => [left, right]
  | not operand _ => [operand]

def size : Filter → Nat
  | condition _ _ => 1
  | and left right _ => left.size + right.size + 1
  | or left right _ => left.size + right.size + 1
  | not operand _ => operand.size + 1

def totalSize : List Filter → Nat
  | [] => 0
  | filter :: filters => filter.size + totalSize filters

end Filter

end RowFilter
