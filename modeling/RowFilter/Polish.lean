import RowFilter.Filter.Rendering

/-!
Filters in Polish notation: each operator before its operands, each operation in parentheses, as in
`(AND (> Column<a> 1) (<= Column<b> 3))`.
-/

namespace RowFilter

namespace Polish

/-- An operation on operands. -/
def operation (operator : String) (operands : List String) : String :=
  "(" ++ operator ++ " " ++ " ".intercalate operands ++ ")"

def column (c : Column) : String :=
  "Column<" ++ c.name ++ ">"

def operand : Operand → String
  | .column c => column c
  | .literal value => value.canonical

/-- The values of a membership condition. -/
def values (values : List Literal) : String :=
  "[" ++ ",".intercalate (values.map Literal.canonical) ++ "]"

def condition : Condition → String
  | .comparison left operator right => operation operator.symbol [column left, operand right]
  | .nullCheck c negated => operation (if negated then "NOTNULL" else "ISNULL") [column c]
  | .membership c negated members =>
    operation (if negated then "NOTIN" else "IN") [column c, values members]

/-- What a filter in Polish notation consists of. -/
def fragments : Filter → List Fragment
  | .condition c _ => [.text (condition c)]
  | .and left right _ =>
    [.text "(AND ", .filter left, .text " ", .filter right, .text ")"]
  | .or left right _ => [.text "(OR ", .filter left, .text " ", .filter right, .text ")"]
  | .not f _ => [.text "(NOT ", .filter f, .text ")"]

def rendering : Rendering where
  fragments
  totalSize_fragments f := by
    cases f <;> simp only [fragments, Fragment.totalSize, Filter.size] <;> omega

end Polish

/-- A filter in Polish notation. -/
def Filter.toPolish (filter : Filter) : String :=
  filter.render Polish.rendering

end RowFilter
