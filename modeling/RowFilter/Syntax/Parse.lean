import RowFilter.Syntax.Nesting
import RowFilter.Syntax.Tree

/-!
Reading filters.

The nesting of parentheses is checked before the grammar is tried, and the size of numbers after
the grammar has accepted the text.
-/

namespace RowFilter

open Grammar

/-- The filter among the matches of a text. -/
def Filter.ofNodes (text : List Char) (nodes : List (Node Rule)) : Except SyntaxError Filter :=
  match (nodes.head?.map Node.parts).getD [] |>.find? (·.rule = .disjunction) with
  | none => .error (.ofEmpty text)
  | some root =>
    match Filter.ofNode root with
    | .ok filter => .ok filter
    | .error ⟨fault, start, stop⟩ => .error (.ofPiece fault text start.offset stop.offset)

/-- The filter that a text spells. -/
def Filter.parse (source : String) : Except SyntaxError Filter :=
  let text := source.toList
  match Nesting.firstExcess text with
  | some offset =>
    match SyntaxError.ofPiece? (.nestedTooDeeply Nesting.limit) text offset (offset + 1) with
    | some error => .error error
    | none => .error (.ofEmpty text)
  | none =>
    match filterGrammar.parse .filter text with
    | .error expected => .error (.ofExpected text expected)
    | .ok nodes => Filter.ofNodes text nodes

/-- The matches with which a rule of filters reads the beginning of a text, in writing. -/
def Rule.showMatches (rule : Rule) (source : String) : Except SyntaxError String :=
  let text := source.toList
  match filterGrammar.parse rule text with
  | .error expected => .error (.ofExpected text expected)
  | .ok nodes => .ok (Node.showAll Rule.label nodes)

end RowFilter
