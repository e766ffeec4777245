import RowFilter.Filter.Search
import RowFilter.Proofs.Filter.Regular
import RowFilter.Proofs.Filter.Truth
import RowFilter.Syntax.Nesting
import RowFilter.Syntax.Rule

/-! Filters in their own language. Parentheses stand only where the reading
would go wrong without them: around a disjunction below a conjunction, and
around a right operand with the connective of the node above it. -/

namespace RowFilter

open Grammar

inductive Quote where
  | single
  | double
deriving DecidableEq

namespace Quote

def char : Quote → Char
  | single => '\''
  | double => '"'

/-- The rule of what may stand between quotes. -/
def bodyRule : Quote → Rule
  | single => .singleQuoted
  | double => .doubleQuoted

end Quote

/-- Whether a rule reads a text up to its end. -/
def Rule.readsWhole (rule : Rule) (text : List Char) : Bool :=
  (filterGrammar.read rule text).result.any fun (_, stop) => stop.rest.isEmpty

def enclosed (needed : Bool) (text : List Char) : List Char :=
  if needed then '(' :: (text ++ [')']) else text

/-- The depth of a text with the given depth, between parentheses if it needs them. -/
def enclosedDepth (needed : Bool) (depth : Nat) : Nat :=
  if needed then depth + 1 else depth

variable (quote : String → Quote)

namespace Literal

def source : Literal → List Char
  | text s => (quote s).char :: (s.toList ++ [(quote s).char])
  | value => value.canonical.toList

/-- Whether the quotes chosen for a text may stand around it. -/
def IsSpellable : Literal → Prop
  | text s => (quote s).bodyRule.readsWhole s.toList = true
  | _ => True

end Literal

def Column.IsSpellable (column : Column) : Prop :=
  Rule.name.readsWhole column.name.toList = true

namespace Operand

def source : Operand → List Char
  | column c => c.name.toList
  | literal value => value.source quote

def IsSpellable : Operand → Prop
  | column c => c.IsSpellable
  | literal value => value.IsSpellable quote

end Operand

namespace Condition

def source : Condition → List Char
  | comparison left operator right =>
    left.name.toList ++ ' ' :: (operator.symbol.toList ++ ' ' :: right.source quote)
  | nullCheck column negated =>
    column.name.toList ++ ' ' :: (if negated then "IS NOT NULL" else "IS NULL").toList
  | membership column negated values =>
    column.name.toList ++ ' ' :: ((if negated then "NOT IN" else "IN").toList ++
      ' ' :: enclosed true ([',', ' '].intercalate (values.map (Literal.source quote))))

def IsSpellable : Condition → Prop
  | comparison left _ right => left.IsSpellable ∧ right.IsSpellable quote
  | nullCheck column _ => column.IsSpellable
  | membership column _ values =>
    column.IsSpellable ∧ ∀ value ∈ values, value.IsSpellable quote

/-- The parentheses around the values of a condition. -/
def depth : Condition → Nat
  | membership _ _ _ => 1
  | _ => 0

end Condition

namespace Filter

/-- Whether a filter is two filters joined by a connective. -/
def isJoinedBy (connective : Connective) (filter : Filter) : Bool :=
  (split? connective filter).isSome

/-- A filter in writing, with the fewest parentheses. -/
def source : Filter → List Char
  | condition c _ => c.source quote
  | and left right _ =>
    enclosed (left.isJoinedBy .or) left.source ++ ' ' :: ("AND".toList ++
      ' ' :: enclosed (right.isJoinedBy .or || right.isJoinedBy .and) right.source)
  | or left right _ =>
    left.source ++ ' ' :: ("OR".toList ++ ' ' :: enclosed (right.isJoinedBy .or) right.source)
  | not operand _ => "NOT".toList ++ ' ' :: operand.source

/-- The number of parentheses open at the deepest place of a filter in writing. -/
def depth : Filter → Nat
  | condition c _ => c.depth
  | and left right _ =>
    max (enclosedDepth (left.isJoinedBy .or) left.depth)
      (enclosedDepth (right.isJoinedBy .or || right.isJoinedBy .and) right.depth)
  | or left right _ => max left.depth (enclosedDepth (right.isJoinedBy .or) right.depth)
  | not operand _ => operand.depth

def IsSpellable (filter : Filter) : Prop :=
  ∀ c ∈ filter.conditions, c.IsSpellable quote

variable {quote} {left right operand : Filter} {span : Span}

theorem isSpellable_condition {c : Condition} :
    (condition c span).IsSpellable quote ↔ c.IsSpellable quote :=
  List.forall_mem_singleton

theorem isSpellable_and :
    (and left right span).IsSpellable quote ↔
      left.IsSpellable quote ∧ right.IsSpellable quote :=
  List.forall_mem_append

theorem isSpellable_or :
    (or left right span).IsSpellable quote ↔
      left.IsSpellable quote ∧ right.IsSpellable quote :=
  List.forall_mem_append

theorem isSpellable_not :
    (not operand span).IsSpellable quote ↔ operand.IsSpellable quote :=
  Iff.rfl

end Filter

section Decidability

instance (value : Literal) : Decidable (value.IsSpellable quote) :=
  match value with
  | .integer _ | .float _ => inferInstanceAs (Decidable True)
  | .text s => inferInstanceAs (Decidable ((quote s).bodyRule.readsWhole s.toList = true))

instance (column : Column) : Decidable column.IsSpellable :=
  inferInstanceAs (Decidable (Rule.name.readsWhole column.name.toList = true))

instance (right : Operand) : Decidable (right.IsSpellable quote) :=
  match right with
  | .column c => inferInstanceAs (Decidable c.IsSpellable)
  | .literal value => inferInstanceAs (Decidable (value.IsSpellable quote))

instance (c : Condition) : Decidable (c.IsSpellable quote) :=
  match c with
  | .comparison left _ right =>
    inferInstanceAs (Decidable (left.IsSpellable ∧ right.IsSpellable quote))
  | .nullCheck column _ => inferInstanceAs (Decidable column.IsSpellable)
  | .membership column _ values =>
    inferInstanceAs (Decidable (column.IsSpellable ∧ ∀ value ∈ values, value.IsSpellable quote))

instance (filter : Filter) : Decidable (filter.IsSpellable quote) :=
  inferInstanceAs (Decidable (∀ c ∈ filter.conditions, c.IsSpellable quote))

end Decidability

end RowFilter
