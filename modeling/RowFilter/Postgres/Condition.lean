import RowFilter.Filter.Rendering

/-!
Filters as conditions of a PostgreSQL `WHERE` clause.

Parentheses stand only around a disjunction directly inside a conjunction, because `OR` binds more
weakly than `AND`.
-/

namespace RowFilter

namespace Text

/-- A text with each occurrence of `quote` written twice. -/
def double (quote : Char) (text : List Char) : List Char :=
  text.flatMap fun c => if c = quote then [c, c] else [c]

/-- A text between two `quote` characters, with each `quote` inside written twice. -/
def quoted (quote : Char) (text : String) : String :=
  String.ofList (quote :: double quote text.toList ++ [quote])

end Text

namespace Postgres

/-- An identifier between double quotes. -/
def identifier (name : String) : String := Text.quoted '"' name

/-- A text between single quotes. -/
def string (text : String) : String := Text.quoted '\'' text

def symbol : Comparison → String
  | .notEqual => "<>"
  | operator => operator.symbol

def literal : Literal → String
  | .text text => string text
  | value => value.canonical

def operand : Operand → String
  | .column c => identifier c.name
  | .literal value => literal value

def condition : Condition → String
  | .comparison left operator right =>
    identifier left.name ++ " " ++ symbol operator ++ " " ++ operand right
  | .nullCheck c negated =>
    identifier c.name ++ (if negated then " IS NOT NULL" else " IS NULL")
  | .membership c negated values =>
    identifier c.name ++ (if negated then " NOT IN (" else " IN (") ++
      ", ".intercalate (values.map literal) ++ ")"

/-- An operand of a conjunction: a disjunction in parentheses, any other filter as it is. -/
def conjunct : Filter → List Fragment
  | .or left right span => [.text "(", .filter (.or left right span), .text ")"]
  | f => [.filter f]

/-- Parentheses add no nodes. -/
theorem totalSize_conjunct (f : Filter) : Fragment.totalSize (conjunct f) = f.size := by
  cases f <;> rfl

/-- What a filter as a condition consists of. -/
def fragments : Filter → List Fragment
  | .condition c _ => [.text (condition c)]
  | .and left right _ => conjunct left ++ .text " AND " :: conjunct right
  | .or left right _ => [.filter left, .text " OR ", .filter right]
  | .not f _ => [.text "NOT ", .filter f]

/-- The number of nodes of the operands of a node. -/
theorem totalSize_fragments (f : Filter) : Fragment.totalSize (fragments f) < f.size := by
  cases f with
  | and left right =>
    rw [fragments, Fragment.totalSize_append, Fragment.totalSize, totalSize_conjunct,
      totalSize_conjunct]
    exact Nat.lt_succ_self _
  | condition | or | not =>
    simp only [fragments, Fragment.totalSize, Filter.size]
    omega

def rendering : Rendering := ⟨fragments, totalSize_fragments⟩

end Postgres

/-- A filter as a PostgreSQL condition. -/
def Filter.toPostgres (filter : Filter) : String :=
  filter.render Postgres.rendering

end RowFilter
