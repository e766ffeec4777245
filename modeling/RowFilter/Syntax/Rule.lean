import RowFilter.Grammar.Run
import RowFilter.Text.Blank

/-!
The grammar of filters: the boolean condition part of a `WHERE` clause.

From the weakest to the strongest, `OR`, `AND`, `NOT`, conditions and parentheses bind the parts of
a filter. `NOT` applies to a single condition.
-/

namespace RowFilter

/-- The rules of the grammar of filters, in their order. -/
inductive Rule where
  | endOfInput
  | whitespace
  | filter
  | disjunction
  | conjunction
  | factor
  | group
  | negation
  | condition
  | comparison
  | nullCheck
  | inList
  | notInList
  | operand
  | literalList
  | literal
  | column
  | name
  | nameChar
  | reserved
  | number
  | sign
  | digits
  | exponent
  | string
  | doubleQuoted
  | singleQuoted
  | keywordAnd
  | keywordOr
  | keywordNot
  | keywordIn
  | keywordNotIn
  | isNull
  | isNotNull
  | gap
  | comparisonSymbol
  | leftParen
  | rightParen
  | comma
  | backtick
deriving DecidableEq, Repr

namespace Rule

/-- All rules in their order. -/
def all : List Rule :=
  [endOfInput, whitespace, filter, disjunction, conjunction, factor, group, negation, condition,
    comparison, nullCheck, inList, notInList, operand, literalList, literal, column, name,
    nameChar, reserved, number, sign, digits, exponent, string, doubleQuoted, singleQuoted,
    keywordAnd, keywordOr, keywordNot, keywordIn, keywordNotIn, isNull, isNotNull, gap,
    comparisonSymbol, leftParen, rightParen, comma, backtick]

def label : Rule → String
  | endOfInput => "EOI"
  | whitespace => "WHITESPACE"
  | filter => "filter"
  | disjunction => "or_expr"
  | conjunction => "and_expr"
  | factor => "factor"
  | group => "group"
  | negation => "negation"
  | condition => "condition"
  | comparison => "comparison"
  | nullCheck => "null_check"
  | inList => "in_list"
  | notInList => "not_in_list"
  | operand => "operand"
  | literalList => "literal_list"
  | literal => "literal"
  | column => "column"
  | name => "name"
  | nameChar => "name_char"
  | reserved => "reserved"
  | number => "number"
  | sign => "sign"
  | digits => "digits"
  | exponent => "exponent"
  | string => "string"
  | doubleQuoted => "dq_chars"
  | singleQuoted => "sq_chars"
  | keywordAnd => "kw_and"
  | keywordOr => "kw_or"
  | keywordNot => "kw_not"
  | keywordIn => "kw_in"
  | keywordNotIn => "kw_not_in"
  | isNull => "is_null"
  | isNotNull => "is_not_null"
  | gap => "gap"
  | comparisonSymbol => "binop"
  | leftParen => "lparen"
  | rightParen => "rparen"
  | comma => "comma"
  | backtick => "backtick"

def ofLabel? (label : String) : Option Rule :=
  all.find? fun rule => rule.label = label

/-- A rule in the words of a reader of filters. Rules that are parts of words keep their names. -/
def description (rule : Rule) : String :=
  match rule with
  | endOfInput => "end of input"
  | disjunction | conjunction => "condition"
  | negation => "negated condition"
  | comparison => "comparison"
  | nullCheck => "null check"
  | inList | notInList => "IN list"
  | literalList => "value list"
  | name => "column name"
  | number => "number"
  | string => "quoted string"
  | comparisonSymbol => "comparison operator"
  | keywordAnd => "AND"
  | keywordOr => "OR"
  | keywordNot => "NOT"
  | keywordIn => "IN"
  | keywordNotIn => "NOT IN"
  | isNull => "IS NULL"
  | isNotNull => "IS NOT NULL"
  | leftParen => "`(`"
  | rightParen => "`)`"
  | comma => "`,`"
  | rule => rule.label

end Rule

open Grammar

/-- How the rules of filters read their parts. -/
def Rule.kind : Rule → Grammar.Kind
  | endOfInput | filter | disjunction | conjunction | negation | comparison | nullCheck | inList
  | notInList | literalList | leftParen | rightParen | comma => .normal
  | whitespace | factor | group | condition | operand | literal | column | nameChar | reserved
  | sign | digits | exponent | gap | backtick => .silent
  | name | number | doubleQuoted | singleQuoted | keywordAnd | keywordOr | keywordNot | keywordIn
  | keywordNotIn | isNull | isNotNull | comparisonSymbol => .atomic
  | string => .compound

/-- The characters of names, dots apart. -/
def isNameChar (c : Char) : Bool :=
  c.isAlphanum || c = '_' || c = '$'

namespace Rule

def sequence (first : Expr Rule) : List (Expr Rule) → Expr Rule
  | [] => first
  | second :: others => .seq first (sequence second others)

/-- The first expression that matches. -/
def firstOf (first : Expr Rule) : List (Expr Rule) → Expr Rule
  | [] => first
  | second :: others => .choice first (firstOf second others)

/-- A word that is not the beginning of a longer one. -/
def wholeWord (text : String) : Expr Rule :=
  .seq (.word text) (.unless (.rule nameChar))

/-- Characters up to an unescaped quote. A backslash escapes the character behind it. -/
def escapedUntil (quote : Char) : Expr Rule :=
  .many (.choice (.seq (.literal "\\") (.oneOf fun _ => true))
    (.oneOf fun c => c ≠ quote && c ≠ '\\'))

/-- The bodies of the rules of filters. -/
def body : Rule → Expr Rule
  | endOfInput => .atEnd
  | whitespace => .oneOf Text.isGap
  | filter => sequence .atStart [.rule disjunction, .rule endOfInput]
  | disjunction =>
    .seq (.rule conjunction) (.many (.seq (.rule keywordOr) (.rule conjunction)))
  | conjunction => .seq (.rule factor) (.many (.seq (.rule keywordAnd) (.rule factor)))
  | factor => firstOf (.rule group) [.rule negation, .rule condition]
  | group => sequence (.rule leftParen) [.rule disjunction, .rule rightParen]
  | negation => .seq (.rule keywordNot) (.rule condition)
  | condition =>
    firstOf (.rule nullCheck) [.rule notInList, .rule inList, .rule comparison]
  | comparison => sequence (.rule column) [.rule comparisonSymbol, .rule operand]
  | nullCheck => .seq (.rule column) (.choice (.rule isNotNull) (.rule isNull))
  | inList => sequence (.rule column) [.rule keywordIn, .rule literalList]
  | notInList => sequence (.rule column) [.rule keywordNotIn, .rule literalList]
  | operand => firstOf (.rule number) [.rule string, .rule column]
  | literalList =>
    sequence (.rule leftParen)
      [.rule literal, .many (.seq (.rule comma) (.rule literal)), .rule rightParen]
  | literal => .choice (.rule number) (.rule string)
  | column =>
    .choice (sequence (.rule backtick) [.rule column, .rule backtick]) (.rule name)
  | name =>
    sequence (.unless (.rule reserved))
      [.unless (.rule number), .many1 (.rule nameChar),
        .many (.seq (.literal ".") (.many1 (.rule nameChar)))]
  | nameChar => .oneOf isNameChar
  | reserved =>
    .seq (firstOf (.word "and") [.word "or", .word "not", .word "in", .word "is"])
      (.unless (.rule nameChar))
  | number =>
    sequence (.optional (.rule sign))
      [.choice
          (.seq (.rule digits) (.optional (.seq (.literal ".") (.optional (.rule digits)))))
          (.seq (.literal ".") (.rule digits)),
        .optional (.rule exponent), .unless (.rule nameChar)]
  | sign => .choice (.literal "+") (.literal "-")
  | digits => .many1 (.oneOf Char.isDigit)
  | exponent => sequence (.word "e") [.optional (.rule sign), .rule digits]
  | string =>
    .choice (sequence (.literal "\"") [.rule doubleQuoted, .literal "\""])
      (sequence (.literal "'") [.rule singleQuoted, .literal "'"])
  | doubleQuoted => escapedUntil '"'
  | singleQuoted => escapedUntil '\''
  | keywordAnd => wholeWord "and"
  | keywordOr => wholeWord "or"
  | keywordNot => wholeWord "not"
  | keywordIn => wholeWord "in"
  | keywordNotIn => sequence (.word "not") [.many1 (.rule gap), wholeWord "in"]
  | isNull => sequence (.word "is") [.many1 (.rule gap), wholeWord "null"]
  | isNotNull =>
    sequence (.word "is")
      [.many1 (.rule gap), .word "not", .many1 (.rule gap), wholeWord "null"]
  | gap => .oneOf Text.isGap
  | comparisonSymbol =>
    firstOf (.literal "!=")
      [.literal ">=", .literal "<=", .literal "<", .literal ">", .literal "="]
  | leftParen => .literal "("
  | rightParen => .literal ")"
  | comma => .literal ","
  | backtick => .literal "`"

end Rule

/-- The grammar of filters. -/
def filterGrammar : Grammar Rule where
  rules := Rule.all
  isBlank := Text.isGap
  kind := Rule.kind
  body := Rule.body

end RowFilter
