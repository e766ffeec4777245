import RowFilter.Decimal.Shortest

/-!
Layouts of floating-point numbers: positional or with an exponent, always with the fewest digits
that read back.
-/

namespace RowFilter

/-- How a finite floating-point number is written. -/
structure FloatLayout where
  /-- The lowest decimal exponent of the first digit that is written positionally. -/
  lowestPositional : Int
  /-- The decimal exponent of the first digit from which on an exponent is written. -/
  firstExponential : Int
  /-- What stands before an exponent that is not negative. -/
  exponentSign : String
  /-- Which digits are taken between two equally near ones. -/
  tie : Tie
deriving DecidableEq, Repr

namespace FloatLayout

/-- Digits around a point. A missing whole part or fraction becomes a zero. -/
def positional (digits : List Char) (exponent : Int) : String :=
  let count : Int := digits.length + exponent
  if 0 ≤ exponent then
    String.ofList (digits ++ List.replicate exponent.toNat '0') ++ ".0"
  else if 0 < count then
    String.ofList (digits.take count.toNat) ++ "." ++ String.ofList (digits.drop count.toNat)
  else
    "0." ++ String.ofList (List.replicate (-count).toNat '0' ++ digits)

/-- The first digit, a point before the others if there are others, and the exponent. -/
def exponential (layout : FloatLayout) (digits : List Char) (exponent : Int) : String :=
  let leading := exponent + digits.length - 1
  let sign := if leading < 0 then "" else layout.exponentSign
  String.ofList (digits.take 1) ++
    (if digits.length ≤ 1 then "" else "." ++ String.ofList (digits.drop 1)) ++
    "e" ++ sign ++ toString leading

/-- A decimal number in a layout. -/
def scientific (layout : FloatLayout) (x : Scientific) : String :=
  let digits := Nat.toDigits 10 x.significand
  let leading := x.exponent + digits.length - 1
  if layout.lowestPositional ≤ leading ∧ leading < layout.firstExponential then
    positional digits x.exponent
  else
    layout.exponential digits x.exponent

/-- A finite floating-point number in a layout. A negative zero keeps its sign. -/
def finite (layout : FloatLayout) (x : Binary64) : String :=
  let sign := if x.negative then "-" else ""
  if x.magnitude = 0 then sign ++ "0.0"
  else sign ++ layout.scientific (Binary64.shortest layout.tie x.magnitude)

end FloatLayout

end RowFilter
