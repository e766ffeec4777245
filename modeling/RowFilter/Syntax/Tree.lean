import RowFilter.Filter.Basic
import RowFilter.Syntax.Error

/-!
Filters from the match trees of the grammar.

A chain `a OR b OR c` becomes the tree `(a OR b) OR c`, and likewise for `AND`. Parentheses leave
no trace but the shape of the tree.
-/

namespace RowFilter

open Grammar

/-- A fault at the piece of the text between two cursors. -/
structure TreeFault where
  fault : SyntaxFault
  start : Cursor
  stop : Cursor

namespace TreeFault

def atNode (fault : SyntaxFault) (node : Node Rule) : TreeFault :=
  ⟨fault, node.start, node.stop⟩

end TreeFault

def Span.ofNode (node : Node Rule) : Span :=
  ⟨node.start.offset, node.stop.offset, node.start.position.line, node.start.position.column⟩

/-- The column of a match. The match of a name leaves out the backticks around it. -/
def Column.ofNode (node : Node Rule) : Column :=
  ⟨node.text, Span.ofNode node⟩

/-- The text between the quotes of a match, with its escapes. -/
def quotedText (node : Node Rule) : String :=
  (node.parts.head?.map Node.text).getD ""

def Literal.ofNode (node : Node Rule) : Except TreeFault Literal :=
  match node.rule with
  | .number =>
    match Literal.ofNumber? node.text with
    | some literal => .ok literal
    | none => .error (.atNode (.numberOutOfRange node.text) node)
  | .string => .ok (.text (quotedText node))
  | rule => .error (.atNode (.unexpectedLiteral rule) node)

def Operand.ofNode (node : Node Rule) : Except TreeFault Operand :=
  match node.rule with
  | .name => .ok (.column (.ofNode node))
  | _ => (Literal.ofNode node).map .literal

/-- The literals among some matches, left to right. -/
def literalsOf : List (Node Rule) → Except TreeFault (List Literal)
  | [] => .ok []
  | node :: nodes =>
    if node.rule = .number ∨ node.rule = .string then
      match Literal.ofNode node with
      | .error fault => .error fault
      | .ok literal => (literalsOf nodes).map (literal :: ·)
    else literalsOf nodes

namespace Condition

def comparisonOf (node : Node Rule) : Except TreeFault Condition :=
  match node.parts with
  | [] => .error (.atNode (.missing .column) node)
  | [_] => .error (.atNode (.missing .operator) node)
  | left :: symbol :: others =>
    match Comparison.ofSymbol? symbol.text with
    | none => .error (.atNode (.unknownOperator symbol.text) symbol)
    | some operator =>
      match others with
      | [] => .error (.atNode (.missing .value) node)
      | right :: _ => (Operand.ofNode right).map (.comparison (.ofNode left) operator)

def nullCheckOf (node : Node Rule) : Except TreeFault Condition :=
  match node.parts with
  | [] => .error (.atNode (.missing .column) node)
  | [_] => .error (.atNode (.missing .nullTest) node)
  | column :: test :: _ => .ok (.nullCheck (.ofNode column) (test.rule = .isNotNull))

def membershipOf (negated : Bool) (node : Node Rule) : Except TreeFault Condition :=
  match node.parts with
  | [] => .error (.atNode (.missing .column) node)
  | column :: others =>
    match others.find? (·.rule = .literalList) with
    | none => .error (.atNode .missingValues node)
    | some values => (literalsOf values.parts).map (.membership (.ofNode column) negated)

end Condition

namespace Filter

/-- Whether a match only separates or encloses the operands of a connective. -/
def isDelimiter (rule : Rule) : Bool :=
  rule = .keywordAnd || rule = .keywordOr || rule = .leftParen || rule = .rightParen

def ofCondition (node : Node Rule) (condition : Except TreeFault Condition) :
    Except TreeFault Filter :=
  condition.map (.condition · (.ofNode node))

mutual

/-- The filter of a match. -/
def ofNode : Node Rule → Except TreeFault Filter
  | .node .disjunction start stop parts =>
    chainOf .or (.node .disjunction start stop parts) none parts
  | .node .conjunction start stop parts =>
    chainOf .and (.node .conjunction start stop parts) none parts
  | .node .negation start stop parts =>
    negationOf (.node .negation start stop parts) parts
  | .node .comparison start stop parts =>
    let node := .node .comparison start stop parts
    ofCondition node (Condition.comparisonOf node)
  | .node .nullCheck start stop parts =>
    let node := .node .nullCheck start stop parts
    ofCondition node (Condition.nullCheckOf node)
  | .node .inList start stop parts =>
    let node := .node .inList start stop parts
    ofCondition node (Condition.membershipOf false node)
  | .node .notInList start stop parts =>
    let node := .node .notInList start stop parts
    ofCondition node (Condition.membershipOf true node)
  | .node rule start stop _ => .error ⟨.unexpectedRule rule, start, stop⟩

/-- The filter of a chain of operands among some matches, joined from the left to what is joined
so far. -/
def chainOf (connective : Connective) (node : Node Rule) :
    Option Filter → List (Node Rule) → Except TreeFault Filter
  | none, [] => .error (.atNode .noOperands node)
  | some joined, [] => .ok joined
  | joined, part :: parts =>
    if isDelimiter part.rule then chainOf connective node joined parts
    else
      match ofNode part with
      | .error fault => .error fault
      | .ok operand =>
        match joined with
        | none => chainOf connective node (some operand) parts
        | some left =>
          chainOf connective node
            (some (connective.join left operand (left.span.cover operand.span))) parts

/-- The negation of the first match that is not the word `NOT`. -/
def negationOf (node : Node Rule) : List (Node Rule) → Except TreeFault Filter
  | [] => .error (.atNode .nothingNegated node)
  | part :: parts =>
    if part.rule = .keywordNot then negationOf node parts
    else (ofNode part).map (.not · (.ofNode node))

end

end Filter

end RowFilter
