import RowFilter.Binary64.Basic

/-!
The floating-point number nearest to a rational or to a decimal number. A value half way between
two neighbours goes to the one with the even magnitude.
-/

namespace RowFilter

/-- The whole number nearest to a quotient. A half goes to the even neighbour. -/
def roundHalfEven (num den : Nat) : Nat :=
  let q := num / den
  let r := num % den
  if 2 * r < den then q else if den < 2 * r then q + 1 else q + q % 2

namespace Binary64

/-- The magnitude nearest to a number of units. Above the lowest two binades only the leading 53
bits are kept, so the units are counted in steps of two to the power `shift`. -/
def nearestMagnitude (num den : Nat) : Nat :=
  let shift := (num / den).log2 - 52
  shift * binade + roundHalfEven num (den <<< shift)

/-- The floating-point number nearest to a quotient with a sign. -/
def ofQuotient (negative : Bool) (num den : Nat) : Binary64 :=
  ofMagnitude negative (nearestMagnitude (num <<< 1074) den)

/-- The floating-point number nearest to an integer. -/
def ofInt (n : Int) : Binary64 :=
  ofQuotient (n < 0) n.natAbs 1

/-- The floating-point number nearest to `significand * 10 ^ exponent` with a sign. The value
lies between `2 ^ log2 * 10 ^ exponent` and twice that, so exponents far outside the range of
finite numbers need no power of ten. -/
def ofDecimal (negative : Bool) (significand : Nat) (exponent : Int) : Binary64 :=
  if significand = 0 then ofMagnitude negative 0
  else if 400 < exponent then ofMagnitude negative infinity
  else if exponent < -((significand.log2 : Int) + 400) then ofMagnitude negative 0
  else if 0 ≤ exponent then ofQuotient negative (significand * Nat.pow 10 exponent.toNat) 1
  else ofQuotient negative significand (Nat.pow 10 (-exponent).toNat)

end Binary64

end RowFilter
