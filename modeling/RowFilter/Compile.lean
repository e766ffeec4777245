import RowFilter.Postgres.Condition
import RowFilter.Pushdown.Conversion
import RowFilter.Syntax.Parse

/-!
From the text of a filter to what storage backends take.
-/

namespace RowFilter

/-- Why the text of a filter has no disjunctive normal form. -/
inductive FilterError where
  /-- The text is no filter. -/
  | unreadable (error : SyntaxError)
  /-- The filter has no such form. -/
  | refused (refusal : Pushdown.Refusal)
deriving DecidableEq, Repr

namespace FilterError

def message : FilterError → String
  | unreadable error => error.message
  | refused refusal => refusal.message

/-- The error in words, with a caret under the place it points at if it points at one. -/
def report : FilterError → String
  | unreadable error => error.report
  | refused refusal => refusal.message

end FilterError

namespace Compile

/-- The filter of a text in Polish notation. -/
def polish (source : String) : Except SyntaxError String :=
  (Filter.parse source).map Filter.toPolish

/-- The filter of a text as a PostgreSQL condition. -/
def postgres (source : String) : Except SyntaxError String :=
  (Filter.parse source).map Filter.toPostgres

/-- The disjunctive normal form of the filter of a text. -/
def dnf (source : String) : Except FilterError Pushdown.Dnf :=
  match Filter.parse source with
  | .error error => .error (.unreadable error)
  | .ok filter =>
    match filter.toDnf with
    | .error refusal => .error (.refused refusal)
    | .ok dnf => .ok dnf

end Compile

end RowFilter
