/-!
Floating-point numbers of 64 bits: a sign and a magnitude.

The magnitude is the number that the lower 63 bits spell. Larger magnitudes are larger values, the
infinities come above all finite values, and what lies beyond is not a number. The value of a
finite magnitude is a whole number of units, where a unit is two to the power -1074.
-/

namespace RowFilter

/-- A floating-point number of 64 bits. Its magnitude is below two to the power 63. -/
structure Binary64 where
  negative : Bool
  magnitude : Nat
  magnitude_lt : magnitude < 0x8000000000000000
deriving DecidableEq, Repr

namespace Binary64

/-- The number of magnitudes that share an exponent: two to the power 52. -/
def binade : Nat := 0x10000000000000

/-- The magnitude of the infinities. -/
def infinity : Nat := 2047 * binade

/-- The floating-point number that 64 bits spell, the sign first. -/
def ofBits (bits : Nat) : Binary64 :=
  ⟨bits / 0x8000000000000000 % 2 = 1, bits % 0x8000000000000000, Nat.mod_lt _ (by decide)⟩

/-- The floating-point number of a sign and a magnitude up to infinity. Larger magnitudes count
as infinity. -/
def ofMagnitude (negative : Bool) (magnitude : Nat) : Binary64 :=
  ⟨negative, min magnitude infinity,
    Nat.lt_of_le_of_lt (Nat.min_le_right _ _) (by decide)⟩

/-- What is not a number, as operations give it. -/
def quietNaN : Binary64 := ofBits 0x7FF8000000000000

def isFinite (x : Binary64) : Bool := x.magnitude < infinity

def isNaN (x : Binary64) : Bool := infinity < x.magnitude

/-- The value of a magnitude in units. Magnitudes of the lowest binade are their own value. In
the others the value doubles its step from binade to binade. -/
def units (magnitude : Nat) : Nat :=
  if magnitude < binade then magnitude
  else (binade + magnitude % binade) <<< (magnitude / binade - 1)

/-- Equality of values: both zeros are equal, and what is not a number is equal to nothing. -/
def equals (x y : Binary64) : Bool :=
  !x.isNaN && !y.isNaN &&
    (x.magnitude = y.magnitude && (x.negative = y.negative || x.magnitude = 0))

/-- The place in the total order of all floating-point numbers: negative ones downwards from -1,
others upwards from 0. -/
def rank (x : Binary64) : Int :=
  if x.negative then -(x.magnitude : Int) - 1 else x.magnitude

end Binary64

end RowFilter
