import RowFilter.Decimal.Digits

/-!
Decimal numbers as they are written: a sign, digits with at most one point among or beside them,
and an exponent behind `e` or `E`. Sign, point and exponent may be missing.

An exponent counts by its leading digits only once these reach `exponentBound`. No number has
another value for that unless it is written with tens of thousands of digits.
-/

namespace RowFilter

/-- Decimal digits with a sign. -/
structure SignedDigits where
  negative : Bool
  digits : List Char
deriving DecidableEq, Repr

namespace SignedDigits

/-- A number with a sign. -/
def applySign (negative : Bool) (n : Nat) : Int :=
  if negative then -(n : Int) else n

def value (n : SignedDigits) : Int :=
  applySign n.negative (digitsValue n.digits)

end SignedDigits

/-- A sign at the beginning of a text: whether it is a minus, and what follows. -/
def readSign : List Char → Bool × List Char
  | '-' :: text => (true, text)
  | '+' :: text => (false, text)
  | text => (false, text)

def SignedDigits.read? (text : List Char) : Option SignedDigits :=
  let (negative, digits) := readSign text
  if digits ≠ [] ∧ digits.all Char.isDigit then some ⟨negative, digits⟩ else none

/-- A decimal number as it is written. -/
structure Numeral where
  negative : Bool
  /-- The digits before the point. -/
  whole : List Char
  /-- The digits behind the point, if there is a point. -/
  fraction : Option (List Char)
  exponent : Option SignedDigits
deriving DecidableEq, Repr

namespace Numeral

/-- The digits behind a point, if the text begins with a point, and what follows. -/
def readFraction : List Char → Option (List Char) × List Char
  | '.' :: text => (some (text.takeWhile Char.isDigit), text.dropWhile Char.isDigit)
  | text => (none, text)

/-- Reads a whole text as an exponent or as nothing. -/
def readExponent? : List Char → Option (Option SignedDigits)
  | [] => some none
  | c :: text => if c = 'e' ∨ c = 'E' then (SignedDigits.read? text).map some else none

/-- Reads a whole text as a decimal number. There is a digit before or behind the point. -/
def read? (text : List Char) : Option Numeral :=
  let (negative, text) := readSign text
  let whole := text.takeWhile Char.isDigit
  let (fraction, text) := readFraction (text.dropWhile Char.isDigit)
  if whole = [] ∧ fraction.getD [] = [] then none
  else (readExponent? text).map fun exponent => ⟨negative, whole, fraction, exponent⟩

def isIntegral (n : Numeral) : Bool :=
  n.fraction.isNone && n.exponent.isNone

/-- All digits read as one number. -/
def significand (n : Numeral) : Nat :=
  digitsValue (n.whole ++ n.fraction.getD [])

/-- The size from which on further digits of an exponent are left out. -/
def exponentBound : Nat := 65536

/-- Appends a digit to an exponent below the bound. -/
def appendExponentDigit (n : Nat) (c : Char) : Nat :=
  if n < exponentBound then 10 * n + digitValue c else n

/-- The number an exponent counts as. -/
def countedExponent (exponent : SignedDigits) : Int :=
  SignedDigits.applySign exponent.negative (exponent.digits.foldl appendExponentDigit 0)

/-- The power of ten by which the significand counts. -/
def scale (n : Numeral) : Int :=
  (n.exponent.map countedExponent).getD 0 - (n.fraction.getD []).length

/-- The value of a number that is written with digits and a sign only. -/
def integer (n : Numeral) : Int :=
  SignedDigits.applySign n.negative (digitsValue n.whole)

end Numeral

end RowFilter
