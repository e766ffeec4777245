import RowFilter.Filter.Basic
import RowFilter.Json.Writer

/-!
Syntax trees of filters as JSON.
-/

namespace RowFilter

def Span.toJson (span : Span) : Json :=
  .object [("start", .integer span.start), ("end", .integer span.stop),
    ("line", .integer span.line), ("column", .integer span.column)]

def Literal.toJson : Literal → Json
  | integer n => .integer n.toInt
  | float x => .float x
  | text s => .string s

def Column.toJson (column : Column) : Json :=
  .object [("name", .string column.name), ("span", column.span.toJson)]

def Operand.toJson : Operand → Json
  | column c => .object [("Column", c.toJson)]
  | literal value => .object [("Literal", value.toJson)]

/-- A condition as a JSON object under the name of its kind. -/
def Condition.toJson : Condition → Json
  | comparison left operator right =>
    .object [("Comparison", .object [("left", left.toJson), ("operator", .string operator.name),
      ("right", right.toJson)])]
  | nullCheck column negated =>
    .object [("NullCheck", .object [("column", column.toJson), ("negated", .bool negated)])]
  | membership column negated values =>
    .object [("InList", .object [("column", column.toJson), ("negated", .bool negated),
      ("values", .array (values.map Literal.toJson))])]

namespace Filter

/-- A node of a syntax tree with its span. -/
def jsonNode (kind : Json) (span : Span) : Json :=
  .object [("kind", kind), ("span", span.toJson)]

/-- A filter as a tree of JSON objects. -/
def toJson : Filter → Json
  | condition c span => jsonNode c.toJson span
  | and left right span => jsonNode (.object [("And", .array [left.toJson, right.toJson])]) span
  | or left right span => jsonNode (.object [("Or", .array [left.toJson, right.toJson])]) span
  | not operand span => jsonNode (.object [("Not", operand.toJson)]) span

end Filter

end RowFilter
