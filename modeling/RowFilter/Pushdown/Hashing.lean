import RowFilter.Pushdown.LiteralSet

/-!
Sets of literals by hash.

A literal feeds its kind and its value to a hasher, and both zeros feed the same. A set compares a
value only with the members of its hash.
-/

namespace RowFilter

/-- The 64 bits of a floating-point number, the sign first. -/
def Binary64.toBits (x : Binary64) : UInt64 :=
  .ofNat ((if x.negative then 0x8000000000000000 else 0) + x.magnitude)

/-- What a hasher is fed in one go. -/
inductive HashWord where
  /-- The kind of a value among those of its type. -/
  | kind (index : Nat)
  | signed (value : Int64)
  | unsigned (value : UInt64)
  | text (value : String)
deriving DecidableEq, Repr

/-- What a literal feeds to a hasher. -/
def Literal.hashInput : Literal → List HashWord
  | integer n => [.kind 0, .signed n]
  | float x => [.kind 1, .unsigned (if x.equals (.ofBits 0) then 0 else x.toBits)]
  | text s => [.kind 2, .text s]

namespace LiteralSet

/-- Whether a value equals one of the members that have its hash. -/
def hasEqualHashed (hash : List HashWord → UInt64) (members : List Literal) (value : Literal) :
    Bool :=
  members.any fun member => hash member.hashInput = hash value.hashInput && value.equals member

/-- Appends a value to the reversed list of members, if no member of its hash equals it. -/
def insertHashed (hash : List HashWord → UInt64) (members : List Literal) (value : Literal) :
    List Literal :=
  if hasEqualHashed hash members value then members else value :: members

/-- The set of the given values, found by their hashes. -/
def ofListHashed (hash : List HashWord → UInt64) (values : List Literal) : LiteralSet :=
  ⟨(values.foldl (insertHashed hash) []).reverse⟩

/-- Whether a value equals a member that has its hash. -/
def containsHashed (hash : List HashWord → UInt64) (set : LiteralSet) (value : Literal) : Bool :=
  hasEqualHashed hash set.members value

end LiteralSet

end RowFilter
