/-! The longest beginning of a text of some kind. Lexers that take as much as
they can read such beginnings. -/

namespace RowFilter.Text

/-- The longest beginning of a text that satisfies `p`. -/
def longest? (p : List Char → Bool) : List Char → Option (List Char)
  | [] => if p [] then some [] else none
  | c :: text =>
    match longest? (fun taken => p (c :: taken)) text with
    | some taken => some (c :: taken)
    | none => if p [] then some [] else none

/-- A beginning of a text of a kind, as long as all others of the kind. -/
structure IsLongest (p : List Char → Bool) (text taken : List Char) : Prop where
  satisfies : p taken = true
  isPrefix : taken <+: text
  length_le : ∀ other, other <+: text → p other = true → other.length ≤ taken.length

variable {p : List Char → Bool} {text taken other : List Char}

/-- There is only one longest beginning. -/
theorem IsLongest.unique (h : IsLongest p text taken) (hOther : IsLongest p text other) :
    other = taken :=
  List.IsPrefix.eq_of_length (List.prefix_of_prefix_length_le hOther.isPrefix h.isPrefix
      (h.length_le _ hOther.isPrefix hOther.satisfies))
    (Nat.le_antisymm (h.length_le _ hOther.isPrefix hOther.satisfies)
      (hOther.length_le _ h.isPrefix h.satisfies))

private theorem longest?_spec (p : List Char → Bool) (text : List Char) :
    match longest? p text with
    | some taken => IsLongest p text taken
    | none => ∀ other, other <+: text → p other = false := by
  -- The induction is on the text. A longer beginning goes on with its first character.
  induction text generalizing p with
  | nil =>
    cases h : p [] with
    | true =>
      simp only [longest?, h, if_true]
      exact ⟨h, List.prefix_rfl, fun other hOther _ => hOther.length_le⟩
    | false =>
      simp only [longest?, h, Bool.false_eq_true, if_false]
      intro other hOther
      rwa [List.prefix_nil.1 hOther]
  | cons c text ih =>
    have hRest := ih fun taken => p (c :: taken)
    rw [longest?]
    split at hRest
    · next taken _ =>
      refine ⟨hRest.satisfies, List.cons_prefix_cons.2 ⟨rfl, hRest.isPrefix⟩, ?_⟩
      intro other hOther hSatisfies
      rcases List.prefix_cons_iff.1 hOther with rfl | ⟨others, rfl, hOthers⟩
      · exact Nat.zero_le _
      · exact Nat.succ_le_succ (hRest.length_le others hOthers hSatisfies)
    · have hLonger : ∀ other, other <+: c :: text → p other = true → other = [] := by
        intro other hOther hSatisfies
        rcases List.prefix_cons_iff.1 hOther with rfl | ⟨others, rfl, hOthers⟩
        · rfl
        · rw [hRest others hOthers] at hSatisfies
          cases hSatisfies
      cases h : p [] with
      | true =>
        simp only [if_true]
        refine ⟨h, List.nil_prefix, fun other hOther hSatisfies => ?_⟩
        exact Nat.le_of_eq (congrArg List.length (hLonger other hOther hSatisfies))
      | false =>
        simp only [Bool.false_eq_true, if_false]
        intro other hOther
        refine Bool.eq_false_iff.2 fun hSatisfies => ?_
        rw [hLonger other hOther hSatisfies, h] at hSatisfies
        cases hSatisfies

/-- What is found is the longest beginning. -/
theorem longest?_eq_some : longest? p text = some taken ↔ IsLongest p text taken := by
  have hSpec := longest?_spec p text
  constructor
  · intro h
    rwa [h] at hSpec
  · intro h
    split at hSpec
    · next hSome => rw [hSome, h.unique hSpec]
    · have hSatisfies := h.satisfies
      rw [hSpec taken h.isPrefix] at hSatisfies
      cases hSatisfies

/-- Nothing is found exactly if no beginning is of the kind. -/
theorem longest?_eq_none :
    longest? p text = none ↔ ∀ other, other <+: text → p other = false := by
  have hSpec := longest?_spec p text
  constructor
  · intro h
    rwa [h] at hSpec
  · intro h
    split at hSpec
    · have hSatisfies := hSpec.satisfies
      rw [h _ hSpec.isPrefix] at hSatisfies
      cases hSatisfies
    · assumption

end RowFilter.Text
