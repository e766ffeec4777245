import RowFilter.Syntax.Rule
import RowFilter.Text.Alphanumeric

/-!
Errors of filter texts: what is wrong, and where.

An error points at a place of the text and shows the line around it. Reading a filter can fail
because its parentheses nest too deeply, because it is no filter by the grammar, or because one of
its numbers is too large. The remaining causes name match trees that the grammar does not produce.
-/

namespace RowFilter

open Text

/-- A part that a match tree lacks. -/
inductive MissingPart where
  | column
  | operator
  | value
  | nullTest
deriving DecidableEq, Repr

namespace MissingPart

def label : MissingPart → String
  | column => "column"
  | operator => "comparison operator"
  | value => "comparison value"
  | nullTest => "IS NULL or IS NOT NULL"

end MissingPart

/-- What is wrong with a filter text. -/
inductive SyntaxFault where
  /-- The text is no filter: none of the expected rules matches, and `found` stands there instead,
  or the text ends there. -/
  | unexpected (expected : List Rule) (found : Option String)
  /-- Parentheses nest more deeply than the limit. -/
  | nestedTooDeeply (limit : Nat)
  /-- A number is too large for a floating-point number. -/
  | numberOutOfRange (lexeme : String)
  /-- There is nothing to read. -/
  | emptyInput
  /-- A match of this rule stands where a filter should. -/
  | unexpectedRule (rule : Rule)
  /-- A connective joins nothing. -/
  | noOperands
  /-- Nothing is negated. -/
  | nothingNegated
  /-- A part is missing. -/
  | missing (part : MissingPart)
  /-- The values of a membership condition are missing. -/
  | missingValues
  /-- A comparison has an operator that is not known. -/
  | unknownOperator (symbol : String)
  /-- A match of this rule stands where a literal should. -/
  | unexpectedLiteral (rule : Rule)
  /-- A fault in words of its own. -/
  | other (message : String)
deriving DecidableEq, Repr

namespace SyntaxFault

def alternatives : List String → String
  | [] => ""
  | [a] => a
  | [a, b] => a ++ " or " ++ b
  | a :: others => ", ".intercalate (a :: others.dropLast) ++ ", or " ++ others.getLastD a

def expectation (expected : List Rule) : String :=
  if expected.isEmpty then "unknown parsing error"
  else "expected " ++ alternatives (expected.map Rule.description)

def finding : Option String → String
  | none => "end of input"
  | some token => "`" ++ token ++ "`"

def message : SyntaxFault → String
  | unexpected expected found => expectation expected ++ ", found " ++ finding found
  | nestedTooDeeply limit =>
    "Parentheses nested deeper than " ++ toString limit ++ " levels"
  | numberOutOfRange lexeme => "Number out of range: " ++ lexeme
  | emptyInput => "Empty input"
  | unexpectedRule rule => "Unexpected rule in expression: " ++ rule.label
  | noOperands => "Boolean expression without operands"
  | nothingNegated => "NOT without condition"
  | missing part => "Missing " ++ part.label
  | missingValues => "Missing value list"
  | unknownOperator symbol => "Unknown comparison operator: " ++ symbol
  | unexpectedLiteral rule => "Unexpected literal: " ++ rule.label
  | other message => message

end SyntaxFault

/-- An error of a filter text. -/
structure SyntaxError where
  fault : SyntaxFault
  /-- The text the error points at, if the text does not end there. -/
  token : Option String
  position : Position
  /-- The byte offset the error points at. -/
  offset : Nat
  /-- The line around that place. -/
  snippet : String
deriving DecidableEq, Repr

namespace SyntaxError

/-- The number of characters of a token that are shown. -/
def tokenLimit : Nat := 32

/-- A character of a word, for showing what was found. -/
def isWordChar (c : Char) : Bool :=
  isAlphanumeric c || c = '_' || c = '$' || c = '.'

/-- A character of an operator, for showing what was found. -/
def isOperatorChar (c : Char) : Bool :=
  c = '!' || c = '<' || c = '>' || c = '=' || c = '~'

/-- What a text begins with behind its blanks: a run of word characters, a run of operator
characters or else a single character. -/
def foundToken (text : List Char) : Option String :=
  match text.dropWhile isBlank with
  | [] => none
  | first :: rest =>
    let run (p : Char → Bool) := String.ofList (((first :: rest).take tokenLimit).takeWhile p)
    if isWordChar first then run isWordChar
    else if isOperatorChar first then run isOperatorChar
    else String.singleton first

/-- A line end made visible. -/
def visibleLineEnd (c : Char) : Char :=
  if c = '\r' then '␍' else if c = '\n' then '␊' else c

/-- The line around the place between `before` and `after`. At a line end the line ends are made
visible, elsewhere they are left out. Visible ones at the end of the line are not shown. -/
def visibleLine (before after : List Char) : List Char :=
  let line := lineAround before after
  let shown :=
    if (after.head?.map isLineEnd).getD false then line.map visibleLineEnd
    else line.filter fun c => !isLineEnd c
  trimEnd (fun c => c = '␊' || c = '␍') shown

/-- The error of a text that is no filter. -/
def ofExpected (text : List Char) (expected : Grammar.Expected Rule) : SyntaxError :=
  let (before, after) := splitBytes expected.offset text
  let token := foundToken after
  { fault := .unexpected expected.rules token
    token
    position := Position.afterLineEnds before
    offset := expected.offset
    snippet := String.ofList (visibleLine before after) }

/-- The error of the piece of a text from byte `start` to byte `stop`. -/
def ofPiece (fault : SyntaxFault) (text : List Char) (start stop : Nat) : SyntaxError :=
  let (before, after) := splitBytes start text
  let piece := (splitBytes (stop - start) after).1.take tokenLimit
  { fault
    token := if piece.isEmpty then none else some (String.ofList piece)
    position := Position.afterLineEnds before
    offset := start
    snippet := String.ofList (trimEnd isLineEnd (lineAround before after)) }

/-- The error of the piece of a text from byte `start` to byte `stop`, if there is one. -/
def ofPiece? (fault : SyntaxFault) (text : List Char) (start stop : Nat) : Option SyntaxError :=
  if start ≤ stop ∧ isBoundary start text ∧ isBoundary stop text then
    some (ofPiece fault text start stop)
  else none

/-- The error of a text with nothing to read. -/
def ofEmpty (text : List Char) : SyntaxError where
  fault := .emptyInput
  token := none
  position := Position.first
  offset := 0
  snippet := String.ofList (firstLine text)

def place (error : SyntaxError) : String :=
  "Syntax error at line " ++ toString error.position.line ++ ", column " ++
    toString error.position.column

def detail (error : SyntaxError) : String := error.fault.message

/-- The error in one line. -/
def message (error : SyntaxError) : String :=
  error.place ++ ": " ++ error.detail

/-- The error with its line, and a caret under the place it points at. -/
def report (error : SyntaxError) : String :=
  error.place ++ ":\n" ++ error.snippet ++ "\n" ++
    String.ofList (List.replicate (error.position.column - 1) ' ') ++ "^\n" ++ error.detail

end SyntaxError

end RowFilter
