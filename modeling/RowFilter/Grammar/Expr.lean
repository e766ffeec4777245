/-!
Parsing expressions and grammars.

A parsing expression describes how a text is read from a place on: choices are ordered, and
repetitions take as much as they can and never give it back. A grammar names parsing expressions
by rules, and says for each rule whether its matches are shown and whether blanks may stand
between its parts.
-/

namespace RowFilter

namespace Grammar

/-- A parsing expression over the rules `R`. -/
inductive Expr (R : Type) where
  /-- The given characters. -/
  | literal (text : String)
  /-- The given characters, where ASCII letters match in either case. -/
  | word (text : String)
  /-- One character of a class. -/
  | oneOf (accepts : Char → Bool)
  /-- Nothing, at the beginning of the text. -/
  | atStart
  /-- Nothing, at the end of the text. -/
  | atEnd
  /-- A rule of the grammar. -/
  | rule (rule : R)
  /-- Both expressions, one behind the other. -/
  | seq (first second : Expr R)
  /-- The first expression, or the second one where the first fails. -/
  | choice (first second : Expr R)
  /-- The expression or nothing. -/
  | optional (body : Expr R)
  /-- The expression as often as it follows. -/
  | many (body : Expr R)
  /-- Nothing, where the expression does not follow. -/
  | unless (body : Expr R)

namespace Expr

/-- The expression once or more often. -/
def many1 {R : Type} (body : Expr R) : Expr R :=
  .seq body (.many body)

end Expr

/-- How a rule reads its parts. -/
inductive Kind where
  /-- Blanks may stand between the parts, and the match is shown. -/
  | normal
  /-- Like the rule that uses it, and only the parts of the match are shown. -/
  | silent
  /-- No blanks between the parts, and the match is shown without its parts. -/
  | atomic
  /-- No blanks between the parts, and the match is shown with its parts. -/
  | compound
deriving DecidableEq, Repr

/-- What holds while a rule is read. -/
structure Mode where
  /-- Whether blanks between parts are skipped. -/
  skipsBlanks : Bool
  /-- Whether matches and expectations are recorded. -/
  records : Bool
deriving DecidableEq, Repr

/-- The mode in which a text is first read. -/
def Mode.initial : Mode := ⟨true, true⟩

/-- The mode inside a rule. No rule turns skipping or recording on again. -/
def Kind.inside (mode : Mode) : Kind → Mode
  | normal => mode
  | silent => mode
  | atomic => ⟨false, false⟩
  | compound => { mode with skipsBlanks := false }

end Grammar

/-- A grammar over the rules `R`. -/
structure Grammar (R : Type) where
  /-- The rules in their order. -/
  rules : List R
  /-- The characters that may stand between parts. -/
  isBlank : Char → Bool
  kind : R → Grammar.Kind
  body : R → Grammar.Expr R

end RowFilter
