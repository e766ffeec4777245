import RowFilter.Binary64.Basic

/-!
The shortest decimal number that reads back as a given floating-point number.

The reals that round to a magnitude form an interval around its value. On a grid of multiples of a
power of ten only the two neighbours of the value need a test. The coarsest grid with a point in
the interval gives the fewest digits, and of two points in the interval the nearer one is taken.
-/

namespace RowFilter

/-- Which of two equally near points is taken. -/
inductive Tie where
  | upward
  | even
deriving DecidableEq, Repr

/-- The decimal number `significand * 10 ^ exponent`. -/
structure Scientific where
  significand : Nat
  exponent : Int
deriving DecidableEq, Repr

namespace Binary64

/-- An interval of reals, counted in quarters of a unit. -/
structure Interval where
  low : Nat
  high : Nat
  /-- Whether the ends belong to the interval. -/
  closed : Bool
deriving DecidableEq, Repr

/-- The step from a magnitude to the next one, in units. -/
def step (magnitude : Nat) : Nat :=
  1 <<< (magnitude / binade - 1)

/-- The reals that round to a magnitude: half a step to both sides, but a quarter step downwards
where the steps below are half as wide. The ends round to the even magnitude. -/
def roundingInterval (magnitude : Nat) : Interval where
  low := 4 * units magnitude -
    (if magnitude % binade = 0 ∧ 2 * binade ≤ magnitude then 1 else 2) * step magnitude
  high := 4 * units magnitude + 2 * step magnitude
  closed := magnitude % 2 = 0

/-- Whether a quotient of quarter units lies in an interval. -/
def Interval.contains (i : Interval) (num den : Nat) : Bool :=
  if i.closed then i.low * den ≤ num && num ≤ i.high * den
  else i.low * den < num && num < i.high * den

/-- The width of a grid cell `10 ^ exponent` in quarter units, as a quotient. -/
def cell (exponent : Int) : Nat × Nat :=
  if 0 ≤ exponent then (Nat.pow 10 exponent.toNat <<< 1076, 1)
  else (1 <<< 1076, Nat.pow 10 (-exponent).toNat)

/-- The point of the grid `10 ^ exponent` that lies in the rounding interval of a magnitude and is
nearest to its value, if there is one. -/
def gridPoint? (tie : Tie) (magnitude : Nat) (exponent : Int) : Option Nat :=
  let (num, den) := cell exponent
  let scaled := 4 * units magnitude * den
  let below := scaled / num
  let rest := scaled % num
  let interval := roundingInterval magnitude
  match interval.contains (below * num) den, interval.contains ((below + 1) * num) den with
  | false, false => none
  | true, false => some below
  | false, true => some (below + 1)
  | true, true =>
    if 2 * rest < num then some below
    else if num < 2 * rest then some (below + 1)
    else match tie with
      | .upward => some (below + 1)
      | .even => some (below + below % 2)

/-- Searches grids of falling exponents for the first one with a point. -/
def searchGrids (tie : Tie) (magnitude : Nat) : Nat → Int → Scientific
  | 0, exponent => ⟨0, exponent⟩
  | tries + 1, exponent =>
    match gridPoint? tie magnitude exponent with
    | some point => ⟨point, exponent⟩
    | none => searchGrids tie magnitude tries (exponent - 1)

/-- An exponent whose grid has no point in the rounding interval of a positive magnitude: its
power of ten lies above the interval. The logarithm of two is a little below 30103 / 100000. -/
def startExponent (magnitude : Nat) : Int :=
  ((4 * units magnitude).log2 - 1074 : Int) * 30103 / 100000 + 1

/-- The shortest decimal number that reads back as a positive finite magnitude. Seventeen digits
suffice for each. -/
def shortest (tie : Tie) (magnitude : Nat) : Scientific :=
  searchGrids tie magnitude 24 (startExponent magnitude)

end Binary64

end RowFilter
