import RowFilter.Proofs.Grammar.Tracking
import RowFilter.Proofs.Syntax.Parse

/-! The words in which an error of the grammar says what a filter lacks. Of two
rules with the same words one is never expected in the end, and neither is a
rule that has no words of its own. So the words are readable and all different. -/

namespace RowFilter

open Grammar Text

namespace Rule

/-- How the rules fail. A column in front of anything else fails through its name, and a backtick
is not noted. -/
def habits : Habits Rule where
  known rule := rule ≠ filter
  consuming := consuming
  bare rule := rule = backtick
  reaching rule := rule ∉ [whitespace, nameChar, reserved, sign, digits, exponent, gap, backtick]
  marking rule := rule.kind ≠ .silent || rule = column

end Rule

variable {text : List Char} {expected : Expected Rule}

namespace SyntaxError

end SyntaxError

end RowFilter
