import RowFilter.Binary64.Rounding
import RowFilter.Decimal.Layout
import RowFilter.Decimal.Numeral

/-!
Literal values: integers of 64 bits, floating-point numbers and texts.

A number is classified by how it is written: digits alone are an integer if they fit, and any other
number is a floating-point number unless it is too large for one.
-/

namespace RowFilter

/-- A literal value. A text keeps the escapes it was written with. -/
inductive Literal where
  | integer (value : Int64)
  | float (value : Binary64)
  | text (value : String)
deriving DecidableEq, Repr

namespace Literal

/-- The integer literal of a whole number, if 64 bits hold it. -/
def ofInt? (n : Int) : Option Literal :=
  if Int64.minValue.toInt ≤ n ∧ n ≤ Int64.maxValue.toInt then some (integer (Int64.ofInt n))
  else none

/-- The floating-point literal of a written number, if it is not too large. -/
def ofNumeralFloat? (n : Numeral) : Option Literal :=
  let x := Binary64.ofDecimal n.negative n.significand n.scale
  if x.isFinite then some (float x) else none

/-- The literal of a written number. -/
def ofNumeral? (n : Numeral) : Option Literal :=
  if n.isIntegral then (ofInt? n.integer).orElse fun _ => ofNumeralFloat? n
  else ofNumeralFloat? n

/-- The literal of a text that spells a number: none if it does not spell one or if the number is
too large. -/
def ofNumber? (lexeme : String) : Option Literal :=
  (Numeral.read? lexeme.toList).bind ofNumeral?

/-- Equality of values of one kind. Both zeros are equal, and what is not a number equals
nothing. -/
def equals : Literal → Literal → Bool
  | integer a, integer b => a = b
  | float a, float b => a.equals b
  | text a, text b => a = b
  | _, _ => false

/-- Floating-point numbers in filters are positional from 0.0001 to below 10^16, and between two
equally near digits the upper one is taken. -/
def floatLayout : FloatLayout := ⟨-4, 16, "", .upward⟩

/-- A floating-point number as filters show it. -/
def showFloat (x : Binary64) : String :=
  if x.isNaN then "NaN"
  else if x.isFinite then floatLayout.finite x
  else if x.negative then "-inf"
  else "inf"

/-- The canonical text: integers without a fraction, floating-point numbers with one, texts between
single quotes. -/
def canonical : Literal → String
  | integer n => toString n.toInt
  | float x => showFloat x
  | text s => "'" ++ s ++ "'"

end Literal

end RowFilter
