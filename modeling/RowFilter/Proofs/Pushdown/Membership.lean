import Mathlib.Data.List.Perm.Subperm
import RowFilter.Proofs.Pushdown.LiteralSet
import RowFilter.Pushdown.Hashing

/-! The members of sets of literals. Of the given values that equal each other
the first one is the member, and what is not a number is a member each time it
is given. Literals are equal exactly if they are numbers or texts and feed the
same to a hasher, so a set finds by hashes what it finds by comparing all. -/

namespace RowFilter

/-- Different floating-point numbers have different bits. -/
theorem Binary64.toBits_inj {x y : Binary64} : x.toBits = y.toBits ↔ x = y := by
  refine ⟨fun h => ?_, congrArg toBits⟩
  obtain ⟨negativeX, magnitudeX, hX⟩ := x
  obtain ⟨negativeY, magnitudeY, hY⟩ := y
  have hNat := congrArg UInt64.toNat h
  simp only [toBits, UInt64.toNat_ofNat'] at hNat
  cases negativeX <;> cases negativeY <;>
    simp only [Bool.false_eq_true, if_false, if_true, mk.injEq, true_and, false_and, reduceCtorEq]
      at hNat ⊢ <;>
    omega

namespace Literal

variable {a b c : Literal}

theorem equals_zero_iff {x : Binary64} : x.equals (.ofBits 0) = true ↔ x.magnitude = 0 := by
  rw [Binary64.equals_iff]
  refine ⟨?_, fun h => .inr ⟨h, rfl⟩⟩
  rintro (⟨rfl, -⟩ | ⟨h, -⟩)
  · rfl
  · exact h

/-- A zero feeds what a zero without a sign has for bits, and no other number feeds that. -/
theorem hashInput_float (x : Binary64) :
    (float x).hashInput = [.kind 1, .unsigned (if x.magnitude = 0 then 0 else x.toBits)] := by
  simp only [hashInput, equals_zero_iff]

private theorem toBits_ne_zero {x : Binary64} (h : x.magnitude ≠ 0) : x.toBits ≠ 0 := by
  intro hBits
  have hZero : x = .ofBits 0 := Binary64.toBits_inj.1 (hBits.trans (by decide))
  exact h (congrArg Binary64.magnitude hZero)

/-- Literals are equal exactly if they are numbers or texts and feed the same to a hasher. -/
theorem equals_iff_hashInput :
    a.equals b = true ↔ a.isNaN = false ∧ a.hashInput = b.hashInput := by
  rw [equals_iff]
  cases a <;> cases b
  case float.float x y =>
    simp only [hashInput_float, isZero, isNaN, float.injEq, decide_eq_true_eq, List.cons.injEq,
      HashWord.unsigned.injEq, true_and, and_true]
    by_cases hX : x.magnitude = 0 <;> by_cases hY : y.magnitude = 0
    · have hNumber : x.isNaN = false := isNaN_of_isZero (a := float x) (decide_eq_true hX)
      simp [hX, hY, hNumber]
    · have hBits := toBits_ne_zero hY
      have hNe : x ≠ y := by
        rintro rfl
        exact hY hX
      simp [hX, hY, hNe, hBits.symm]
    · have hBits := toBits_ne_zero hX
      have hNe : x ≠ y := by
        rintro rfl
        exact hX hY
      simp [hX, hY, hNe, hBits]
    · simp [hX, hY, Binary64.toBits_inj, and_comm]
  all_goals simp [isZero, isNaN, hashInput]

end Literal

namespace LiteralSet

open Literal (Covers equals_comm equals_trans equals_self not_isNaN_of_equals equals_iff_hashInput)

variable {values others members : List Literal}

/-- If each member of a set equals a member of another one that has no more members, then each
member of that one equals a member of the first. -/
theorem covers_members (hDistinct : members.Pairwise fun a b => a.equals b = false)
    (hLength : others.length ≤ members.length) (h : Covers members others) :
    Covers others members := by
  -- The classes of the members are told apart by what they feed to a hasher.
  have hNodup : (members.map Literal.hashInput).Nodup := by
    refine List.pairwise_map.2 (hDistinct.imp_of_mem fun {a b} hA _ hNot hHash => ?_)
    rw [equals_iff_hashInput.2 ⟨h.not_isNaN hA, hHash⟩] at hNot
    cases hNot
  have hSubset : members.map Literal.hashInput ⊆ others.map Literal.hashInput := by
    intro input hInput
    obtain ⟨member, hMember, rfl⟩ := List.mem_map.1 hInput
    obtain ⟨other, hOther, hEquals⟩ := h member hMember
    exact List.mem_map.2 ⟨other, hOther, (equals_iff_hashInput.1 hEquals).2.symm⟩
  have hPerm := (hNodup.subperm hSubset).perm_of_length_le (by simpa using hLength)
  intro other hOther
  obtain ⟨member, hMember, hHash⟩ := List.mem_map.1
    (hPerm.mem_iff.2 (List.mem_map_of_mem (f := Literal.hashInput) hOther))
  refine ⟨member, hMember, ?_⟩
  rw [equals_comm]
  exact equals_iff_hashInput.2 ⟨h.not_isNaN hMember, hHash⟩

/-- Each member is a given value, and each given value is or equals a member. So the members of
two sets cover each other where the given values do. -/
theorem covers_of_covers_members
    (h : Covers (ofList values).members (ofList others).members) : Covers values others := by
  intro value hValue
  cases hNaN : value.isNaN with
  | true =>
    have hMem : value ∈ (ofList values).members.filter Literal.isNaN := by
      rw [filter_members_isNaN]
      exact List.mem_filter.2 ⟨hValue, hNaN⟩
    rw [h.not_isNaN (List.mem_filter.1 hMem).1] at hNaN
    cases hNaN
  | false =>
    obtain ⟨member, hMember, hEquals⟩ :=
      hasEqual_iff.1 (contains_ofList.2 ⟨value, hValue, equals_self hNaN⟩)
    obtain ⟨other, hOther, hMemberEquals⟩ := h member hMember
    exact contains_ofList.1
      (hasEqual_iff.2 ⟨other, hOther, equals_trans hEquals hMemberEquals⟩)

/-- Two sets are equal exactly if each given value of one equals a given value of the other. -/
theorem equals_ofList_iff :
    (ofList values).equals (ofList others) = true ↔ Covers values others ∧ Covers others values := by
  constructor
  · intro h
    rw [equals, Bool.and_eq_true, decide_eq_true_eq, List.all_eq_true] at h
    obtain ⟨hSize, hContains⟩ := h
    have hCovers : Covers (ofList values).members (ofList others).members :=
      fun member hMember => hasEqual_iff.1 (hContains member hMember)
    exact ⟨covers_of_covers_members hCovers, covers_of_covers_members
      (covers_members (pairwise_members values) (Nat.le_of_eq hSize.symm) hCovers)⟩
  · rintro ⟨hValues, hOthers⟩
    exact equals_ofList hValues hOthers

/-- Looking at the members of a hash finds the equal ones, since they all have it. -/
theorem hasEqualHashed_eq (hash : List HashWord → UInt64) (members : List Literal)
    (value : Literal) : hasEqualHashed hash members value = hasEqual members value := by
  refine congrArg members.any (funext fun member => ?_)
  cases hEquals : value.equals member with
  | false => exact Bool.and_false _
  | true => simp [(equals_iff_hashInput.1 hEquals).2]

/-- Finding members by their hashes makes the same set, whatever the hash. -/
theorem ofListHashed_eq (hash : List HashWord → UInt64) (values : List Literal) :
    ofListHashed hash values = ofList values := by
  have hInsert : insertHashed hash = LiteralSet.insertReversed := by
    funext members value
    rw [insertHashed, hasEqualHashed_eq, LiteralSet.insertReversed]
  rw [ofListHashed, hInsert, ofList]

/-- A set of literals holds of the values that equal each other the first one given, and what is
not a number each time. It contains what equals a given value, and sets are equal if the values
given for one equal values given for the other. Only a literal itself equals it, except for the
two zeros, and nothing equals what is not a number. Equal literals feed the same to a hasher, so
whatever the hash, looking at the members of a hash only makes the same set. -/
theorem ofList_holdsClasses :
    (∀ (values : List Literal) (value : Literal),
        (ofList values).members.filter value.equals = (values.find? value.equals).toList) ∧
      (∀ values, (ofList values).members.filter Literal.isNaN = values.filter Literal.isNaN) ∧
      (∀ values value, (ofList values).contains value = true ↔
        ∃ given ∈ values, given.equals value = true) ∧
      (∀ values others, (ofList values).equals (ofList others) = true ↔
        Covers values others ∧ Covers others values) ∧
      (∀ a b : Literal, a.equals b = true ↔
        a = b ∧ a.isNaN = false ∨ a.isZero = true ∧ b.isZero = true) ∧
      (∀ a b : Literal, a.equals b = true → a.hashInput = b.hashInput) ∧
      ∀ hash values value, ofListHashed hash values = ofList values ∧
        containsHashed hash (ofList values) value = (ofList values).contains value := by
  refine ⟨filter_members_equals, filter_members_isNaN, fun values value => ?_,
    fun _ _ => equals_ofList_iff, fun _ _ => Literal.equals_iff,
    fun _ _ h => (equals_iff_hashInput.1 h).2,
    fun hash values value => ⟨ofListHashed_eq hash values, hasEqualHashed_eq hash _ value⟩⟩
  rw [contains_ofList]
  simp only [equals_comm value]

end LiteralSet

end RowFilter
