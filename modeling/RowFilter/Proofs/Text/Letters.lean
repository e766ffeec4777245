import RowFilter.Text.Blank

/-! Letters in lower case. Only the capital letters of ASCII have another small
letter, and a class of characters with all letters or none does not tell them
apart. -/

namespace RowFilter.Text

/-- A character is its own small letter, unless it is a capital letter. -/
theorem toLower_cases (c : Char) :
    c.toLower = c ∨ c.isUpper = true ∧ c.toLower.isLower = true := by
  by_cases h : c.val ≥ 'A'.val ∧ c.val ≤ 'Z'.val
  · have hUpper : c.isUpper = true := by
      delta Char.isUpper
      simpa using h
    have hLeast : 65 ≤ c.val.toNat := UInt32.le_iff_toNat_le.1 h.1
    have hMost : c.val.toNat ≤ 90 := UInt32.le_iff_toNat_le.1 h.2
    -- A capital letter is 32 before its small letter.
    have hSum : (c.val + ('a'.val - 'A'.val)).toNat = c.val.toNat + 32 := by
      rw [UInt32.toNat_add]
      change (c.val.toNat + 32) % 2 ^ 32 = _
      omega
    refine .inr ⟨hUpper, ?_⟩
    delta Char.toLower Char.isLower
    rw [dif_pos h]
    simp only [Bool.and_eq_true, decide_eq_true_eq, ge_iff_le, UInt32.le_iff_toNat_le, hSum]
    change 97 ≤ _ ∧ _ ≤ 122
    omega
  · left
    delta Char.toLower
    exact dif_neg h

/-- No letter is both small and capital. -/
theorem isUpper_eq_false {c : Char} (h : c.isLower = true) : c.isUpper = false := by
  rw [Bool.eq_false_iff]
  intro hUpper
  delta Char.isLower at h
  delta Char.isUpper at hUpper
  simp only [Bool.and_eq_true, decide_eq_true_eq, ge_iff_le, UInt32.le_iff_toNat_le] at h hUpper
  have hLeast : 97 ≤ c.val.toNat := h.1
  have hMost : c.val.toNat ≤ 90 := hUpper.2
  omega

theorem isDigit_eq_false_of_isAlpha {c : Char} (h : c.isAlpha = true) : c.isDigit = false := by
  rw [Bool.eq_false_iff]
  intro hDigit
  delta Char.isAlpha Char.isUpper Char.isLower at h
  simp only [Char.isDigit, Bool.or_eq_true, Bool.and_eq_true, decide_eq_true_eq, ge_iff_le,
    UInt32.le_iff_toNat_le] at h hDigit
  have hMost : c.val.toNat ≤ 57 := hDigit.2
  change 65 ≤ _ ∧ _ ≤ 90 ∨ 97 ≤ _ ∧ _ ≤ 122 at h
  omega

theorem toLower_toLower (c : Char) : c.toLower.toLower = c.toLower := by
  rcases toLower_cases c with h | ⟨-, hLower⟩
  · rw [h, h]
  · rcases toLower_cases c.toLower with h | ⟨hUpper, -⟩
    · exact h
    · rw [isUpper_eq_false hLower] at hUpper
      cases hUpper

/-- A class of characters that has all letters or none. -/
theorem class_toLower {p : Char → Bool} {all : Bool} (h : ∀ c, c.isAlpha = true → p c = all)
    (c : Char) : p c.toLower = p c := by
  rcases toLower_cases c with hSame | ⟨hUpper, hLower⟩
  · rw [hSame]
  · rw [h c (Bool.or_eq_true_iff.2 (.inl hUpper)), h _ (Bool.or_eq_true_iff.2 (.inr hLower))]

/-- A character that is no letter is the small letter of itself only. -/
theorem eq_toLower_iff {a : Char} (h : a.isAlpha = false) (c : Char) : a = c.toLower ↔ a = c := by
  have hClass : ∀ c, c.isAlpha = true → decide (a = c) = false := by
    intro c hc
    refine decide_eq_false ?_
    rintro rfl
    rw [h] at hc
    cases hc
  exact decide_eq_decide.1 (class_toLower hClass c)

theorem toLower_eq_iff {a : Char} (h : a.isAlpha = false) (c : Char) : c.toLower = a ↔ c = a :=
  eq_comm.trans ((eq_toLower_iff h c).trans eq_comm)

end RowFilter.Text
