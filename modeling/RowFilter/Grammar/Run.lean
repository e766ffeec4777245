import RowFilter.Grammar.Expected
import RowFilter.Grammar.Expr
import RowFilter.Grammar.Node

/-!
Reading a text with a grammar.

`Expr.read` follows the structure of a parsing expression and is given the way to read a rule.
`readRule` reads a rule through the expression of its body, down to a depth of nested rules, and
`Grammar.parse` computes a depth from the text that no reading exceeds as long as each round of
nested rules takes a character.
-/

namespace RowFilter.Grammar

variable {R : Type}

/-- The outcome of reading: what was expected where it failed so far, and on success the matches
and the place behind them. -/
structure Reading (R : Type) where
  expected : Expected R
  result : Option (List (Node R) × Cursor)

namespace Reading

def failure (expected : Expected R) : Reading R := ⟨expected, none⟩

def success (expected : Expected R) (nodes : List (Node R)) (cursor : Cursor) : Reading R :=
  ⟨expected, some (nodes, cursor)⟩

/-- Reading that matches no rule, given the place it came to. -/
def ofCursor? (expected : Expected R) : Option Cursor → Reading R
  | none => failure expected
  | some cursor => success expected [] cursor

end Reading

/-- A way to read from a place on. -/
abbrev Reader (R : Type) := Cursor → Expected R → Reading R

/-- Moves over blanks where they are skipped. -/
def Mode.skip (mode : Mode) (isBlank : Char → Bool) (cursor : Cursor) : Cursor :=
  if mode.skipsBlanks then cursor.skip isBlank else cursor

/-- Reads again and again, with skipping in between, at most `tries` times. The matches so far are
in `found`, the last one first. What is skipped before a failing try is given back. -/
def repeatReader (skip : Cursor → Cursor) (reader : Reader R) :
    Nat → List (Node R) → Cursor → Expected R → Reading R
  | 0, found, cursor, expected => .success expected found.reverse cursor
  | tries + 1, found, cursor, expected =>
    match reader (skip cursor) expected with
    | ⟨expected, none⟩ => .success expected found.reverse cursor
    | ⟨expected, some (nodes, next)⟩ =>
      repeatReader skip reader tries (nodes.reverse ++ found) next expected

/-- Whether two characters are equal up to the case of ASCII letters. -/
def sameLetter (a b : Char) : Bool := a.toLower = b.toLower

/-- Reads a parsing expression, given how a rule is read in a mode and a bound on the repetitions
of a part. -/
def Expr.read (isBlank : Char → Bool) (readRule : R → Mode → Reader R) (bound : Nat) :
    Expr R → Mode → Reader R
  | .literal text, _, cursor, expected =>
    .ofCursor? expected (cursor.acceptAll? (text.toList.map fun a b => a = b))
  | .word text, _, cursor, expected =>
    .ofCursor? expected (cursor.acceptAll? (text.toList.map sameLetter))
  | .oneOf accepts, _, cursor, expected =>
    .ofCursor? expected (cursor.accept? accepts)
  | .atStart, _, cursor, expected =>
    if cursor.offset = 0 then .success expected [] cursor else .failure expected
  | .atEnd, _, cursor, expected =>
    if cursor.rest.isEmpty then .success expected [] cursor else .failure expected
  | .rule name, mode, cursor, expected => readRule name mode cursor expected
  | .seq first second, mode, cursor, expected =>
    match first.read isBlank readRule bound mode cursor expected with
    | ⟨expected, none⟩ => .failure expected
    | ⟨expected, some (nodes, next)⟩ =>
      match second.read isBlank readRule bound mode (mode.skip isBlank next) expected with
      | ⟨expected, none⟩ => .failure expected
      | ⟨expected, some (others, stop)⟩ => .success expected (nodes ++ others) stop
  | .choice first second, mode, cursor, expected =>
    match first.read isBlank readRule bound mode cursor expected with
    | ⟨expected, none⟩ => second.read isBlank readRule bound mode cursor expected
    | success => success
  | .optional body, mode, cursor, expected =>
    match body.read isBlank readRule bound mode cursor expected with
    | ⟨expected, none⟩ => .success expected [] cursor
    | success => success
  | .many body, mode, cursor, expected =>
    match body.read isBlank readRule bound mode cursor expected with
    | ⟨expected, none⟩ => .success expected [] cursor
    | ⟨expected, some (nodes, next)⟩ =>
      repeatReader (mode.skip isBlank) (body.read isBlank readRule bound mode) bound
        nodes.reverse next expected
  | .unless body, mode, cursor, expected =>
    match body.read isBlank readRule bound { mode with records := false } cursor expected with
    | ⟨expected, none⟩ => .success expected [] cursor
    | ⟨expected, some _⟩ => .failure expected

/-- Shows the outcome of a rule that records: its match on success, and on failure the rule among
those that were expected where it was tried. -/
def Reading.record (rule : R) (start : Cursor) (before : Nat) : Reading R → Reading R
  | ⟨expected, none⟩ => .failure (expected.note rule start.offset before)
  | ⟨expected, some (nodes, stop)⟩ => .success expected [.node rule start stop nodes] stop

/-- Reads a rule, down to a depth of nested rules. -/
def readRule (grammar : Grammar R) (bound : Nat) : Nat → R → Mode → Reader R
  | 0, _, _, _, expected => .failure expected
  | depth + 1, rule, mode, cursor, expected =>
    let kind := grammar.kind rule
    let reading := (grammar.body rule).read grammar.isBlank (grammar.readRule bound depth) bound
      (kind.inside mode) cursor expected
    if kind ≠ .silent ∧ mode.records then
      reading.record rule cursor (expected.countAt cursor.offset)
    else reading

/-- Reads the beginning of a text with a rule. -/
def read (grammar : Grammar R) (rule : R) (text : List Char) : Reading R :=
  let bound := text.length + 1
  grammar.readRule bound (bound * grammar.rules.length) rule .initial (.ofText text) .empty

/-- The matches with which a rule reads the beginning of a text, or what was expected at the
farthest place it came to, in the order of the rules. -/
def parse [DecidableEq R] (grammar : Grammar R) (rule : R) (text : List Char) :
    Except (Expected R) (List (Node R)) :=
  match grammar.read rule text with
  | ⟨_, some (nodes, _)⟩ => .ok nodes
  | ⟨expected, none⟩ =>
    .error { expected with rules := grammar.rules.filter (· ∈ expected.rules) }

end RowFilter.Grammar
