import Mathlib.Data.List.Nodup
import RowFilter.Proofs.Binary64.Order
import RowFilter.Pushdown.LiteralSet

/-! Sets of literals and the order in which they are written. Lists of the same
values make the same set, but of two zeros the first one becomes the member. -/

namespace RowFilter

/-- Numbers are equal if they are identical or both zeros. -/
theorem Binary64.equals_iff {x y : Binary64} :
    x.equals y = true ↔ x = y ∧ x.isNaN = false ∨ x.magnitude = 0 ∧ y.magnitude = 0 := by
  obtain ⟨negativeX, magnitudeX, _⟩ := x
  obtain ⟨negativeY, magnitudeY, _⟩ := y
  simp only [equals, isNaN, Bool.and_eq_true, Bool.or_eq_true, Bool.not_eq_true',
    decide_eq_true_eq, decide_eq_false_iff_not, mk.injEq]
  constructor
  · rintro ⟨⟨hX, -⟩, rfl, rfl | rfl⟩
    · exact .inl ⟨⟨rfl, rfl⟩, hX⟩
    · exact .inr ⟨rfl, rfl⟩
  · rintro (⟨⟨rfl, rfl⟩, hX⟩ | ⟨rfl, rfl⟩)
    · exact ⟨⟨hX, hX⟩, rfl, .inl rfl⟩
    · exact ⟨⟨Nat.not_lt_zero _, Nat.not_lt_zero _⟩, rfl, .inr rfl⟩

namespace Literal

/-- Whether a literal is one of the two zeros of floating-point numbers. -/
def isZero : Literal → Bool
  | float x => x.magnitude = 0
  | _ => false

def isNaN : Literal → Bool
  | float x => x.isNaN
  | _ => false

variable {a b c : Literal}

/-- Values are equal if they are the same or both zeros, unless they are not numbers. -/
theorem equals_iff :
    a.equals b = true ↔ a = b ∧ a.isNaN = false ∨ a.isZero = true ∧ b.isZero = true := by
  cases a <;> cases b <;> simp [equals, isZero, isNaN, Binary64.equals_iff]

theorem isNaN_of_isZero (h : a.isZero = true) : a.isNaN = false := by
  cases a with
  | float x =>
    have hZero : x.magnitude = 0 := by simpa [isZero] using h
    simp [isNaN, Binary64.isNaN, hZero]
  | _ => rfl

/-- Equality of values is symmetric. -/
theorem equals_comm (a b : Literal) : a.equals b = b.equals a := by
  rw [Bool.eq_iff_iff, equals_iff, equals_iff, and_comm (a := a.isZero = true)]
  exact or_congr_left ⟨fun ⟨h, hNumber⟩ => ⟨h.symm, h ▸ hNumber⟩,
    fun ⟨h, hNumber⟩ => ⟨h.symm, h ▸ hNumber⟩⟩

/-- Equality of values is transitive. -/
theorem equals_trans (hLeft : a.equals b = true) (hRight : b.equals c = true) :
    a.equals c = true := by
  rw [equals_iff] at *
  rcases hLeft with ⟨rfl, hNumber⟩ | ⟨hZero, hOther⟩
  · exact hRight
  · rcases hRight with ⟨rfl, -⟩ | ⟨-, hLast⟩
    · exact .inr ⟨hZero, hOther⟩
    · exact .inr ⟨hZero, hLast⟩

theorem equals_self (h : a.isNaN = false) : a.equals a = true :=
  equals_iff.2 (.inl ⟨rfl, h⟩)

theorem not_isNaN_of_equals (h : a.equals b = true) : a.isNaN = false := by
  rcases equals_iff.1 h with ⟨-, hNumber⟩ | ⟨hZero, -⟩
  · exact hNumber
  · exact isNaN_of_isZero hZero

/-- What is neither a zero nor no number equals itself only. -/
theorem exists_equals_iff {values : List Literal} (hNonzero : a.isZero = false)
    (hNumber : a.isNaN = false) : (∃ other ∈ values, a.equals other = true) ↔ a ∈ values := by
  refine ⟨?_, fun h => ⟨a, h, equals_self hNumber⟩⟩
  rintro ⟨other, hOther, hEquals⟩
  rcases equals_iff.1 hEquals with ⟨rfl, -⟩ | ⟨hZero, -⟩
  · exact hOther
  · rw [hNonzero] at hZero
    cases hZero

/-- The zeros are what equals a zero. -/
theorem equals_zero : (float (.ofBits 0)).equals = isZero := by
  funext other
  have hZero : (float (.ofBits 0)).isZero = true := rfl
  rw [Bool.eq_iff_iff, equals_iff, and_iff_right hZero, or_iff_right_iff_imp]
  rintro ⟨rfl, -⟩
  exact hZero

/-- Each of some values equals one of others. -/
def Covers (values others : List Literal) : Prop :=
  ∀ value ∈ values, ∃ other ∈ others, value.equals other = true

instance (values others : List Literal) : Decidable (Covers values others) :=
  inferInstanceAs (Decidable (∀ value ∈ values, ∃ other ∈ others, value.equals other = true))

def firstZero? (values : List Literal) : Option Literal :=
  values.find? isZero

variable {values others : List Literal}

theorem Covers.not_isNaN (h : Covers values others) {value : Literal} (hMem : value ∈ values) :
    value.isNaN = false := by
  obtain ⟨other, -, hEquals⟩ := h value hMem
  exact not_isNaN_of_equals hEquals

/-- Each of the covered values, zeros apart, is among the others. -/
theorem Covers.mem (h : Covers values others) {value : Literal} (hMem : value ∈ values)
    (hNonzero : value.isZero = false) : value ∈ others :=
  (exists_equals_iff hNonzero (h.not_isNaN hMem)).1 (h value hMem)

theorem Covers.exists_isZero (h : Covers values others) {zero : Literal}
    (hZero : firstZero? values = some zero) : ∃ other, firstZero? others = some other := by
  have hIsZero := List.find?_some hZero
  obtain ⟨other, hOther, hEquals⟩ := h zero (List.mem_of_find?_eq_some hZero)
  refine Option.isSome_iff_exists.1 (List.find?_isSome.2 ⟨other, hOther, ?_⟩)
  rcases equals_iff.1 hEquals with ⟨rfl, -⟩ | ⟨-, hOtherZero⟩
  · exact hIsZero
  · exact hOtherZero

/-- Where there is no zero, none is covered. -/
theorem Covers.firstZero?_eq_none (h : Covers values others) (hNone : firstZero? others = none) :
    firstZero? values = none := by
  cases hZero : firstZero? values with
  | none => rfl
  | some zero =>
    obtain ⟨other, hSome⟩ := h.exists_isZero hZero
    rw [hNone] at hSome
    cases hSome

/-! The order in which sets are written. -/

/-- Whether a literal comes before another one or is the same, case by case. -/
def Precedes : Literal → Literal → Prop
  | text a, text b => a ≤ b
  | text _, _ => False
  | _, text _ => True
  | integer a, integer b => a.toInt ≤ b.toInt
  | float x, float y => x.rank ≤ y.rank
  | integer a, float y => (Binary64.ofInt a.toInt).rank ≤ y.rank
  | float x, integer b => x.rank < (Binary64.ofInt b.toInt).rank

/-- The order puts a literal first if it precedes the other one. -/
theorem isLE_order {a b : Literal} : (a.order b).isLE = true ↔ a.Precedes b := by
  cases a <;> cases b <;> simp only [order, orderKey, isFloat, Precedes, Std.isLE_compare,
    Ordering.isLE_lt, Ordering.isLE_gt, Bool.false_eq_true, Ordering.isLE_then_iff_or,
    Std.compare_eq_lt]
  case integer.float | float.float =>
    rw [Std.compare_eq_iff_eq, Int.le_iff_lt_or_eq]
    exact or_congr_right (and_iff_left rfl)
  case float.integer => exact or_iff_left fun h => absurd h.2 (by decide)
  case text.text a b =>
    exact isLE_compareOfLessAndEq String.le_antisymm String.not_le String.le_total

/-- Integers are compared with other numbers by the numbers nearest to them, which come in the
order of the integers. -/
theorem Precedes.trans {a b c : Literal} (hLeft : a.Precedes b) (hRight : b.Precedes c) :
    a.Precedes c := by
  cases a <;> cases b <;> cases c <;> simp only [Precedes] at *
  case integer.float.integer m x n =>
    have hRanks := Binary64.rank_ofInt_mono (m := n.toInt) (n := m.toInt)
    omega
  case integer.integer.float m n x =>
    exact Int.le_trans (Binary64.rank_ofInt_mono hLeft) hRight
  case float.integer.integer x m n =>
    exact Int.lt_of_lt_of_le hLeft (Binary64.rank_ofInt_mono hRight)
  case text.text.text => exact String.le_trans hLeft hRight
  all_goals omega

/-- Of two literals one precedes the other. -/
theorem precedes_total (a b : Literal) : a.Precedes b ∨ b.Precedes a := by
  cases a <;> cases b <;> simp only [Precedes, or_true, true_or]
  case text.text => exact String.le_total _ _
  all_goals omega

theorem Precedes.antisymm {a b : Literal} (hLeft : a.Precedes b) (hRight : b.Precedes a) :
    a = b := by
  cases a <;> cases b <;> simp only [Precedes] at *
  case integer.integer m n => rw [Int64.toInt_inj.1 (Int.le_antisymm hLeft hRight)]
  case float.float x y => rw [Binary64.rank_inj.1 (Int.le_antisymm hLeft hRight)]
  case text.text a b => rw [String.le_antisymm hLeft hRight]
  all_goals omega

end Literal

namespace LiteralSet

open Literal (firstZero? Covers Precedes equals_iff equals_comm equals_trans equals_self
  exists_equals_iff not_isNaN_of_equals equals_zero)

variable {values others given members : List Literal} {value member : Literal}

theorem hasEqual_iff :
    hasEqual members value = true ↔ ∃ member ∈ members, value.equals member = true :=
  List.any_eq_true

/-- Of the values so far, those that a value equals have one member, the first one of them, and
what is not a number has a member each time. -/
structure HoldsFirsts (given members : List Literal) : Prop where
  filter_equals (value : Literal) :
    members.filter value.equals = (given.find? value.equals).toList
  filter_isNaN : members.filter Literal.isNaN = (given.filter Literal.isNaN).reverse

/-- One more value keeps the invariant. -/
theorem HoldsFirsts.insertReversed (h : HoldsFirsts given members) (value : Literal) :
    HoldsFirsts (given ++ [value]) (insertReversed members value) := by
  rw [LiteralSet.insertReversed]
  split
  · next hEqual =>
    obtain ⟨member, hMember, hEquals⟩ := hasEqual_iff.1 hEqual
    refine ⟨fun other => ?_, ?_⟩
    · rw [h.filter_equals, List.find?_append]
      cases hOther : other.equals value with
      | false => simp [hOther]
      | true =>
        -- What equals the value equals the member too, so something is found already.
        have hMem : member ∈ (given.find? other.equals).toList :=
          h.filter_equals other ▸ List.mem_filter.2 ⟨hMember, equals_trans hOther hEquals⟩
        rw [Option.mem_toList.1 hMem]
        rfl
    · simp [h.filter_isNaN, not_isNaN_of_equals hEquals]
  · next hNew =>
    refine ⟨fun other => ?_, ?_⟩
    · rw [List.filter_cons, h.filter_equals, List.find?_append]
      cases hOther : other.equals value with
      | false => simp [hOther]
      | true =>
        have hNone : given.find? other.equals = none := by
          rw [← Option.toList_eq_nil_iff, ← h.filter_equals, List.filter_eq_nil_iff]
          intro member hMember hEquals
          rw [equals_comm] at hOther
          exact hNew (hasEqual_iff.2 ⟨member, hMember, equals_trans hOther hEquals⟩)
        simp [hOther, hNone]
    · cases hNaN : value.isNaN <;> simp [hNaN, h.filter_isNaN]

/-- Any number of values keeps the invariant. -/
theorem HoldsFirsts.foldl (h : HoldsFirsts given members) :
    HoldsFirsts (given ++ values) (values.foldl LiteralSet.insertReversed members) := by
  induction values generalizing given members with
  | nil => rwa [List.append_nil]
  | cons value values ih =>
    have hStep := ih (h.insertReversed value)
    rwa [List.append_assoc] at hStep

/-- The members that a value equals are the first one given that it equals, if there is one. -/
theorem filter_members_equals (values : List Literal) (value : Literal) :
    (ofList values).members.filter value.equals = (values.find? value.equals).toList := by
  have hEmpty : HoldsFirsts [] [] := ⟨fun _ => rfl, rfl⟩
  have hFold : HoldsFirsts values (values.foldl LiteralSet.insertReversed []) := hEmpty.foldl
  rw [ofList, List.filter_reverse, hFold.filter_equals]
  cases values.find? value.equals <;> rfl

/-- What is not a number is a member each time it is given. -/
theorem filter_members_isNaN (values : List Literal) :
    (ofList values).members.filter Literal.isNaN = values.filter Literal.isNaN := by
  have hEmpty : HoldsFirsts [] [] := ⟨fun _ => rfl, rfl⟩
  have hFold : HoldsFirsts values (values.foldl LiteralSet.insertReversed []) := hEmpty.foldl
  rw [ofList, List.filter_reverse, hFold.filter_isNaN, List.reverse_reverse]

/-- Each member is a given value. -/
theorem mem_of_mem_members (h : member ∈ (ofList values).members) : member ∈ values := by
  cases hNaN : member.isNaN with
  | true =>
    have hMem : member ∈ values.filter Literal.isNaN := by
      rw [← filter_members_isNaN]
      exact List.mem_filter.2 ⟨h, hNaN⟩
    exact (List.mem_filter.1 hMem).1
  | false =>
    have hFirst : member ∈ (values.find? member.equals).toList := by
      rw [← filter_members_equals]
      exact List.mem_filter.2 ⟨h, equals_self hNaN⟩
    exact List.mem_of_find?_eq_some (Option.mem_toList.1 hFirst)

/-- A set contains what equals one of the given values. -/
theorem contains_ofList :
    (ofList values).contains value = true ↔ ∃ given ∈ values, value.equals given = true := by
  rw [contains, hasEqual_iff]
  have hFilter := filter_members_equals values value
  constructor
  · rintro ⟨member, hMember, hEquals⟩
    have hMem : member ∈ (values.find? value.equals).toList :=
      hFilter ▸ List.mem_filter.2 ⟨hMember, hEquals⟩
    have hFind := Option.mem_toList.1 hMem
    exact ⟨member, List.mem_of_find?_eq_some hFind, List.find?_some hFind⟩
  · rintro ⟨given, hGiven, hEquals⟩
    obtain ⟨first, hFirst⟩ := Option.isSome_iff_exists.1
      (List.find?_isSome.2 ⟨given, hGiven, hEquals⟩)
    have hMem : first ∈ (ofList values).members.filter value.equals := by
      rw [hFilter, hFirst]
      exact List.mem_singleton_self first
    exact ⟨first, List.mem_filter.1 hMem⟩

/-- No member equals another one. -/
theorem pairwise_members (values : List Literal) :
    (ofList values).members.Pairwise fun a b => a.equals b = false := by
  suffices h : (values.foldl LiteralSet.insertReversed []).Pairwise fun a b => a.equals b = false by
    rw [ofList, List.pairwise_reverse]
    exact h.imp fun {a b} hNot => (equals_comm b a).trans hNot
  have hFold (members : List Literal) (h : members.Pairwise fun a b => a.equals b = false) :
      (values.foldl LiteralSet.insertReversed members).Pairwise fun a b => a.equals b = false := by
    induction values generalizing members with
    | nil => exact h
    | cons value values ih =>
      refine ih _ ?_
      rw [LiteralSet.insertReversed]
      split
      · exact h
      · next hNew =>
        refine List.pairwise_cons.2 ⟨fun member hMember => Bool.eq_false_iff.2 fun hEquals => ?_, h⟩
        exact hNew (hasEqual_iff.2 ⟨member, hMember, hEquals⟩)
  exact hFold [] .nil

/-- Members of the set of some values: each value once, and of the zeros the first one. -/
structure IsSetOf (values members : List Literal) : Prop where
  nodup : members.Nodup
  mem_iff : ∀ value, value.isZero = false → (value ∈ members ↔ value ∈ values)
  zeros : members.filter Literal.isZero = (firstZero? values).toList

/-- Values that are numbers or texts make a set that holds each of them once. -/
theorem isSetOf_ofList (hNumbers : ∀ value ∈ values, value.isNaN = false) :
    IsSetOf values (ofList values).members := by
  have hMembers : ∀ member ∈ (ofList values).members, member.isNaN = false :=
    fun member hMember => hNumbers member (mem_of_mem_members hMember)
  refine ⟨?_, fun value hValue => ?_, ?_⟩
  · refine (pairwise_members values).imp_of_mem fun {a b} hA _ hNot hEq => ?_
    rw [← hEq, equals_self (hMembers a hA)] at hNot
    cases hNot
  · cases hNaN : value.isNaN with
    | true =>
      refine iff_of_false (fun hMem => ?_) (fun hMem => ?_)
      · rw [hMembers value hMem] at hNaN
        cases hNaN
      · rw [hNumbers value hMem] at hNaN
        cases hNaN
    | false =>
      rw [← exists_equals_iff hValue hNaN, ← exists_equals_iff hValue hNaN]
      exact hasEqual_iff.symm.trans contains_ofList
  · rw [← equals_zero, filter_members_equals, equals_zero]
    rfl

/-- The members of a set are its zero, if it has one, and the other values. -/
theorem IsSetOf.perm_filter (h : IsSetOf values members) :
    members.Perm ((firstZero? values).toList ++ members.filter (!·.isZero)) := by
  rw [← h.zeros]
  exact (List.filter_append_perm _ members).symm

/-- Lists of the same values have the same members but for the zeros. -/
theorem perm_filter_of_covers (hValues : Covers values others) (hOthers : Covers others values) :
    ((ofList values).members.filter (!·.isZero)).Perm
      ((ofList others).members.filter (!·.isZero)) := by
  have hSet := isSetOf_ofList fun _ => hValues.not_isNaN
  have hOtherSet := isSetOf_ofList fun _ => hOthers.not_isNaN
  refine (List.perm_ext_iff_of_nodup (hSet.nodup.filter _) (hOtherSet.nodup.filter _)).2 ?_
  intro value
  simp only [List.mem_filter, Bool.not_eq_true']
  refine and_congr_left fun hNonzero => ?_
  rw [hSet.mem_iff value hNonzero, hOtherSet.mem_iff value hNonzero]
  exact ⟨fun h => hValues.mem h hNonzero, fun h => hOthers.mem h hNonzero⟩

theorem contains_of_mem {set : LiteralSet} (hMember : member ∈ set.members)
    (hEquals : value.equals member = true) : set.contains value = true :=
  hasEqual_iff.2 ⟨member, hMember, hEquals⟩

/-- Lists of the same values make the same set. -/
theorem equals_ofList (hValues : Covers values others) (hOthers : Covers others values) :
    (ofList values).equals (ofList others) = true := by
  have hSet := isSetOf_ofList fun _ => hValues.not_isNaN
  have hOtherSet := isSetOf_ofList fun _ => hOthers.not_isNaN
  have hRest := perm_filter_of_covers hValues hOthers
  have hZeros : (firstZero? values).toList.length = (firstZero? others).toList.length := by
    cases hZero : firstZero? values with
    | none => rw [hOthers.firstZero?_eq_none hZero]
    | some zero =>
      obtain ⟨other, hOther⟩ := hValues.exists_isZero hZero
      rw [hOther]
      rfl
  rw [equals, Bool.and_eq_true, decide_eq_true_eq, List.all_eq_true]
  refine ⟨?_, fun member hMember => ?_⟩
  · rw [size, size, hSet.perm_filter.length_eq, hOtherSet.perm_filter.length_eq,
      List.length_append, List.length_append, hZeros, hRest.length_eq]
  · cases hZero : member.isZero with
    | false =>
      have hMem : member ∈ (ofList others).members :=
        (hOtherSet.mem_iff _ hZero).2 (hValues.mem ((hSet.mem_iff _ hZero).1 hMember) hZero)
      exact contains_of_mem hMem
        (equals_iff.2 (.inl ⟨rfl, hValues.not_isNaN ((hSet.mem_iff _ hZero).1 hMember)⟩))
    | true =>
      have hFirst : member ∈ (firstZero? values).toList :=
        hSet.zeros ▸ List.mem_filter.2 ⟨hMember, hZero⟩
      obtain ⟨other, hOther⟩ := hValues.exists_isZero (Option.mem_toList.1 hFirst)
      have hMem : other ∈ (ofList others).members.filter Literal.isZero := by
        rw [hOtherSet.zeros, hOther]
        exact List.mem_singleton_self other
      obtain ⟨hMem, hOtherZero⟩ := List.mem_filter.1 hMem
      exact contains_of_mem hMem (equals_iff.2 (.inr ⟨hZero, hOtherZero⟩))

/-- A set is written with all of its members. -/
theorem sorted_perm (set : LiteralSet) : set.sorted.Perm set.members :=
  List.mergeSort_perm _ _

theorem order_ne_gt_iff {a b : Literal} : a.order b ≠ .gt ↔ a.Precedes b :=
  Ordering.ne_gt_iff_isLE.trans Literal.isLE_order

/-- The members are written in ascending order. -/
theorem pairwise_sorted (set : LiteralSet) : set.sorted.Pairwise Precedes := by
  refine (List.pairwise_mergeSort ?_ ?_ set.members).imp fun h =>
    order_ne_gt_iff.1 (of_decide_eq_true h)
  · intro a b c hLeft hRight
    rw [decide_eq_true_eq, order_ne_gt_iff] at hLeft hRight ⊢
    exact hLeft.trans hRight
  · intro a b
    rw [Bool.or_eq_true, decide_eq_true_eq, decide_eq_true_eq, order_ne_gt_iff, order_ne_gt_iff]
    exact Literal.precedes_total a b

/-- An ascending sequence of the members is the one that is written. -/
theorem eq_sorted_of_perm {set : LiteralSet} {written : List Literal}
    (hPerm : written.Perm set.members) (hOrder : written.Pairwise Precedes) :
    written = set.sorted :=
  List.Perm.eq_of_pairwise (fun _ _ _ _ => Precedes.antisymm) hOrder (pairwise_sorted set)
    (hPerm.trans (sorted_perm set).symm)

/-- What is written depends on the members only, not on their order. -/
theorem sorted_eq_of_perm {set other : LiteralSet} (h : set.members.Perm other.members) :
    set.sorted = other.sorted :=
  eq_sorted_of_perm ((sorted_perm set).trans h) (pairwise_sorted set)

end LiteralSet

end RowFilter
