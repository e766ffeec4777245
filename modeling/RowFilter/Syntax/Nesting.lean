/-!
The limit on nested parentheses.

Parentheses are counted without the grammar. Those between quotes do not count, and between quotes
a backslash takes away the meaning of the character behind it.
-/

namespace RowFilter.Nesting

/-- The deepest nesting of parentheses that is accepted. -/
def limit : Nat := 256

/-- How far a scan is inside a quoted text. -/
inductive Quoting where
  | outside
  | inside (quote : Char)
  /-- Inside, behind a backslash. -/
  | escaped (quote : Char)
deriving DecidableEq, Repr

/-- What one more character does to the quoting. -/
def Quoting.step : Quoting → Char → Quoting
  | .outside, c => if c = '\'' || c = '"' then .inside c else .outside
  | .inside quote, c =>
    if c = '\\' then .escaped quote else if c = quote then .outside else .inside quote
  | .escaped quote, _ => .inside quote

/-- The number of open parentheses behind one more character. -/
def depthAfter (quoting : Quoting) (depth : Nat) (c : Char) : Nat :=
  if quoting = .outside then
    if c = '(' then depth + 1 else if c = ')' then depth - 1 else depth
  else depth

/-- The byte offset of the first parenthesis that exceeds the limit, from a place of a scan on. -/
def excessFrom (quoting : Quoting) (depth offset : Nat) : List Char → Option Nat
  | [] => none
  | c :: text =>
    let next := depthAfter quoting depth c
    if limit < next then some offset
    else excessFrom (quoting.step c) next (offset + c.utf8Size) text

/-- The byte offset of the first parenthesis that exceeds the limit, if there is one. -/
def firstExcess (text : List Char) : Option Nat :=
  excessFrom .outside 0 0 text

end RowFilter.Nesting
