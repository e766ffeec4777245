import RowFilter.Text.Blank

/-! Where a run of characters ends. A text stops a class of characters if it
is empty or begins with a character outside the class. -/

namespace RowFilter.Text

/-- No character of a class begins a text. -/
def StopsAt (p : Char → Bool) : List Char → Prop
  | [] => True
  | c :: _ => p c = false

variable {p q : Char → Bool} {text rest : List Char}

@[simp] theorem stopsAt_nil : StopsAt p [] := trivial

@[simp] theorem stopsAt_cons {c : Char} : StopsAt p (c :: text) ↔ p c = false := Iff.rfl

/-- A text that stops at a class stops at each smaller one. -/
theorem StopsAt.mono (h : StopsAt p text) (hClass : ∀ c, q c = true → p c = true) :
    StopsAt q text := by
  cases text with
  | nil => trivial
  | cons c text =>
    rw [stopsAt_cons] at h ⊢
    exact Bool.eq_false_iff.2 fun hc => by simp [hClass c hc] at h

/-- A text in front of one that stops a class stops it too, if it does so itself. -/
theorem StopsAt.append (hText : StopsAt p text) (hRest : StopsAt p rest) :
    StopsAt p (text ++ rest) := by
  cases text with
  | nil => exact hRest
  | cons c text => exact hText

/-- Whether a text stops a class is decided by its first character. -/
theorem StopsAt.append_of_ne_nil (h : StopsAt p (text ++ rest)) (hText : text ≠ [])
    (behind : List Char) : StopsAt p (text ++ behind) := by
  cases text with
  | nil => exact absurd rfl hText
  | cons c text => exact h

/-- A shorter text stops a class where a longer one does. -/
theorem StopsAt.of_isPrefix (h : StopsAt p rest) (hPrefix : text <+: rest) : StopsAt p text := by
  obtain ⟨behind, rfl⟩ := hPrefix
  cases text with
  | nil => trivial
  | cons c text => exact h

/-- A run of a class ends where the rest stops at it. -/
theorem StopsAt.takeWhile_append (hRest : StopsAt p rest) (hText : ∀ c ∈ text, p c = true) :
    (text ++ rest).takeWhile p = text := by
  rw [List.takeWhile_append_of_pos hText]
  cases rest with
  | nil => simp
  | cons c rest =>
    rw [List.takeWhile_cons_of_neg (by simpa using hRest), List.append_nil]

theorem StopsAt.dropWhile_append (hRest : StopsAt p rest) (hText : ∀ c ∈ text, p c = true) :
    (text ++ rest).dropWhile p = rest := by
  rw [List.dropWhile_append_of_pos hText]
  cases rest with
  | nil => rfl
  | cons c rest => rw [List.dropWhile_cons_of_neg (by simpa using hRest)]

theorem StopsAt.takeWhile_eq_nil (h : StopsAt p text) : text.takeWhile p = [] := by
  exact h.takeWhile_append (List.forall_mem_nil _)

theorem StopsAt.dropWhile_eq_self (h : StopsAt p text) : text.dropWhile p = text := by
  exact h.dropWhile_append (List.forall_mem_nil _)

/-- What does not go on with a class adds nothing to a run of it. -/
theorem StopsAt.takeWhile_append_left (hRest : StopsAt p rest) (text : List Char) :
    (text ++ rest).takeWhile p = text.takeWhile p := by
  induction text with
  | nil => exact hRest.takeWhile_eq_nil
  | cons c text ih =>
    rw [List.cons_append]
    cases h : p c with
    | true => rw [List.takeWhile_cons_of_pos h, List.takeWhile_cons_of_pos h, ih]
    | false => rw [List.takeWhile_cons_of_neg (by simp [h]), List.takeWhile_cons_of_neg (by simp [h])]

/-- Behind a run of a class a text stops at it. -/
theorem stopsAt_dropWhile (text : List Char) : StopsAt p (text.dropWhile p) := by
  induction text with
  | nil => trivial
  | cons c text ih =>
    cases h : p c with
    | true => rwa [List.dropWhile_cons_of_pos h]
    | false => rwa [List.dropWhile_cons_of_neg (by simp [h])]

theorem of_mem_takeWhile {c : Char} (h : c ∈ text.takeWhile p) : p c = true :=
  List.all_eq_true.1 List.all_takeWhile c h

/-- The characters that end a word of a condition. -/
def isDelimiter (c : Char) : Bool := c = ' ' || c = ')' || c = ','

theorem stopsAt_blank (text : List Char) : StopsAt (!isDelimiter ·) (' ' :: text) := rfl

/-- Nothing goes on with a class of characters that has no delimiter in it. -/
theorem stopsAt_of_delimiter (hText : StopsAt (!isDelimiter ·) text)
    (h : (p ' ' || p ')' || p ',') = false) : StopsAt p text := by
  apply hText.mono
  intro c hc
  cases hDelimiter : isDelimiter c with
  | false => rfl
  | true =>
    simp only [isDelimiter, Bool.or_eq_true, decide_eq_true_eq] at hDelimiter
    simp only [Bool.or_eq_false_iff] at h
    rcases hDelimiter with (rfl | rfl) | rfl
    · rw [h.1.1] at hc
      cases hc
    · rw [h.1.2] at hc
      cases hc
    · rw [h.2] at hc
      cases hc

/-- No class without gaps has a character of a gap. -/
theorem isGap_eq_false {c : Char} (hClass : (p ' ' || p '\t' || p '\r' || p '\n') = false)
    (h : p c = true) : isGap c = false := by
  rw [Bool.eq_false_iff]
  intro hGap
  simp only [isGap, Bool.or_eq_true, decide_eq_true_eq] at hGap
  rcases hGap with ((rfl | rfl) | rfl) | rfl <;> simp [h] at hClass

end RowFilter.Text
