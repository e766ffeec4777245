import RowFilter.Filter.Literal

/-!
Sets of literals.

Members are compared as values, so both zeros are one member, and what is not a number is a new
member each time. Sets are written in ascending order, numbers before texts.
-/

namespace RowFilter

namespace Literal

/-- The floating-point number by which a number is ordered among numbers of both kinds. A text has
none. -/
def orderKey : Literal → Binary64
  | integer n => .ofInt n.toInt
  | float x => x
  | text _ => .quietNaN

def isFloat : Literal → Bool
  | float _ => true
  | _ => false

/-- The order in which sets are written: integers by value, other numbers by the total order of
floating-point numbers, where an integer comes before an equal floating-point number, and texts
behind all numbers by their characters. -/
def order : Literal → Literal → Ordering
  | text a, text b => compare a b
  | text _, _ => .gt
  | _, text _ => .lt
  | integer a, integer b => compare a.toInt b.toInt
  | a, b => (compare a.orderKey.rank b.orderKey.rank).then (compare a.isFloat b.isFloat)

end Literal

/-- A set of literals: no member equals an earlier one. -/
structure LiteralSet where
  members : List Literal
deriving DecidableEq, Repr

namespace LiteralSet

/-- Whether a list holds a value equal to the given one. -/
def hasEqual (members : List Literal) (value : Literal) : Bool :=
  members.any fun member => value.equals member

/-- Appends a value to the reversed list of members, if no member equals it. -/
def insertReversed (members : List Literal) (value : Literal) : List Literal :=
  if hasEqual members value then members else value :: members

/-- The set of the given values. Of equal values the first one becomes the member. -/
def ofList (values : List Literal) : LiteralSet :=
  ⟨(values.foldl insertReversed []).reverse⟩

def size (set : LiteralSet) : Nat := set.members.length

def contains (set : LiteralSet) (value : Literal) : Bool :=
  hasEqual set.members value

/-- Whether two sets have the same members. -/
def equals (a b : LiteralSet) : Bool :=
  a.size = b.size && a.members.all b.contains

/-- The members in the order in which they are written. -/
def sorted (set : LiteralSet) : List Literal :=
  set.members.mergeSort fun a b => a.order b ≠ .gt

end LiteralSet

end RowFilter
