import RowFilter.Proofs.Grammar.Adequacy
import RowFilter.Syntax.Rule

/-! The grammar of filters is ranked, so every text is read to an end. Only
parentheses and backticks lead back to an earlier rule, and both take a
character first. -/

namespace RowFilter

open Grammar

namespace Rule

/-- A rule stands above all rules that it may try at the same place. -/
def rank : Rule → Nat
  | endOfInput | whitespace | nameChar | sign | digits | gap | doubleQuoted | singleQuoted
  | comparisonSymbol | leftParen | rightParen | comma | backtick => 0
  | reserved | exponent | string | keywordAnd | keywordOr | keywordNot | keywordIn
  | keywordNotIn | isNull | isNotNull => 1
  | number => 2
  | name | literal => 3
  | column | literalList => 4
  | comparison | nullCheck | inList | notInList | operand => 5
  | condition => 6
  | negation | group => 7
  | factor => 8
  | conjunction => 9
  | disjunction => 10
  | filter => 11

/-- All rules take a character, but for quoted texts that may be empty and the end. -/
def consuming : Rule → Bool
  | endOfInput | doubleQuoted | singleQuoted => false
  | _ => true

end Rule

/-- Each rule of filters stands above those that it may try at the same place. -/
theorem filterGrammar_ranked : Ranked filterGrammar Rule.rank Rule.consuming where
  rank_lt rule := by cases rule <;> decide
  consumes_body rule := by cases rule <;> decide
  rank_leading_lt rule := by cases rule <;> decide
  rounds_consume rule := by cases rule <;> decide

end RowFilter
