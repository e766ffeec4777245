import RowFilter.Filter.Json
import RowFilter.Pushdown.LiteralSet

/-!
Disjunctive normal forms, as readers of columnar files take them to skip rows: a disjunction of
conjunctions of triples of a column, an operator and a value.
-/

namespace RowFilter.Pushdown

/-- The operators of triples. -/
inductive Operator where
  | compare (comparison : Comparison)
  | isIn
  | notIn
deriving DecidableEq, Repr

namespace Operator

def symbol : Operator → String
  | compare comparison => comparison.symbol
  | isIn => "in"
  | notIn => "not in"

def ofSymbol? (symbol : String) : Option Operator :=
  match symbol with
  | "in" => some isIn
  | "not in" => some notIn
  | symbol => (Comparison.ofSymbol? symbol).map compare

end Operator

/-- The value of a triple. -/
inductive Value where
  | literal (value : Literal)
  | set (values : LiteralSet)
deriving DecidableEq, Repr

namespace Value

/-- The text that stands for null in comparisons with null. -/
def null : Value := .literal (.text "null")

/-- Equality of values. A literal never equals a set. -/
def equals : Value → Value → Bool
  | literal a, literal b => a.equals b
  | set a, set b => a.equals b
  | _, _ => false

/-- A value in JSON: a literal, or the members of a set in their order. -/
def toJson : Value → Json
  | literal value => value.toJson
  | set values => .array (values.sorted.map Literal.toJson)

end Value

/-- A condition as a triple. -/
structure Triple where
  column : String
  operator : Operator
  value : Value
deriving DecidableEq, Repr

def Triple.equals (a b : Triple) : Bool :=
  a.column = b.column && a.operator = b.operator && a.value.equals b.value

/-- A triple in JSON: an array of three. -/
def Triple.toJson (triple : Triple) : Json :=
  .array [.string triple.column, .string triple.operator.symbol, triple.value.toJson]

/-- A disjunction of conjunctions of triples. -/
structure Dnf where
  groups : List (List Triple)
deriving DecidableEq, Repr

/-- Equality of disjunctive normal forms: place by place, the triples of each group are equal. -/
def Dnf.equals (a b : Dnf) : Bool :=
  a.groups.isEqv b.groups fun group other => group.isEqv other Triple.equals

def Dnf.toJson (dnf : Dnf) : Json :=
  .array (dnf.groups.map fun group => .array (group.map Triple.toJson))

end RowFilter.Pushdown
