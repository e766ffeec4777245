import RowFilter.Proofs.Text.Bytes
import RowFilter.Syntax.Nesting

/-! The scan for nested parentheses, in terms of what stands before a
parenthesis. The scan stops at the first parenthesis outside quotes behind
which more than the limit are open. -/

namespace RowFilter.Nesting

open Text

/-- The quoting and the number of open parentheses behind a text. -/
def scan (text : List Char) : Quoting × Nat :=
  text.foldl (fun (quoting, depth) c => (quoting.step c, depthAfter quoting depth c)) (.outside, 0)

theorem scan_concat (text : List Char) (c : Char) :
    scan (text ++ [c]) = ((scan text).1.step c, depthAfter (scan text).1 (scan text).2 c) := by
  rw [scan, List.foldl_append]
  rfl

/-- Whether one more parenthesis behind a text stands outside quotes and
makes the number of open ones exceed the limit. -/
def Exceeds (before : List Char) : Prop :=
  (scan before).1 = .outside ∧ limit < (scan before).2 + 1

/-- A text whose open parentheses outside quotes never exceed the limit. -/
def IsWithinLimit (text : List Char) : Prop :=
  ∀ before after, text = before ++ '(' :: after → ¬Exceeds before

/-- A text cut at its first parenthesis that exceeds the limit. -/
structure IsFirstExcess (text before after : List Char) : Prop where
  text_eq : text = before ++ '(' :: after
  exceeds : Exceeds before
  length_le : ∀ earlier later, text = earlier ++ '(' :: later → Exceeds earlier →
    before.length ≤ earlier.length

private theorem limit_lt_depthAfter {seen : List Char} {c : Char}
    (hDepth : (scan seen).2 ≤ limit) :
    limit < depthAfter (scan seen).1 (scan seen).2 c ↔ c = '(' ∧ Exceeds seen := by
  unfold depthAfter Exceeds
  split
  · next hOutside =>
    split
    · next hOpen => simp [hOutside, hOpen]
    · next hOther =>
      simp only [hOther, false_and, iff_false]
      split <;> omega
  · next hQuoted =>
    simp only [hQuoted, false_and, and_false, iff_false]
    omega

/-- What a scan finds behind the part of a text that it has seen. -/
private def Finds (seen text : List Char) : Option Nat → Prop
  | none => ∀ before after, text = before ++ '(' :: after → ¬Exceeds (seen ++ before)
  | some offset => ∃ before after, text = before ++ '(' :: after ∧ Exceeds (seen ++ before) ∧
      offset = byteLength (seen ++ before) ∧
      ∀ earlier later, text = earlier ++ '(' :: later → Exceeds (seen ++ earlier) →
        before.length ≤ earlier.length

private theorem Finds.cons {seen text : List Char} {c : Char} {found : Option Nat}
    (hFinds : Finds (seen ++ [c]) text found) (hPassed : ¬(c = '(' ∧ Exceeds seen)) :
    Finds seen (c :: text) found := by
  have hCut : ∀ before after, c :: text = before ++ '(' :: after → Exceeds (seen ++ before) →
      ∃ others, before = c :: others ∧ text = others ++ '(' :: after := by
    intro before after hText hExceeds
    cases before with
    | nil =>
      obtain ⟨rfl, -⟩ := List.cons.inj hText
      exact absurd ⟨rfl, by simpa using hExceeds⟩ hPassed
    | cons first others =>
      obtain ⟨rfl, hOthers⟩ := List.cons.inj hText
      exact ⟨others, rfl, hOthers⟩
  cases found with
  | none =>
    intro before after hText hExceeds
    obtain ⟨others, rfl, hOthers⟩ := hCut before after hText hExceeds
    exact hFinds others after hOthers (by simpa using hExceeds)
  | some offset =>
    obtain ⟨before, after, rfl, hExceeds, hOffset, hFirst⟩ := hFinds
    refine ⟨c :: before, after, rfl, by simpa using hExceeds, by simpa using hOffset, ?_⟩
    intro earlier later hText hEarlier
    obtain ⟨others, rfl, hOthers⟩ := hCut earlier later hText hEarlier
    exact Nat.succ_le_succ (hFirst others later hOthers (by simpa using hEarlier))

private theorem finds_excessFrom (seen text : List Char) (hDepth : (scan seen).2 ≤ limit) :
    Finds seen text (excessFrom (scan seen).1 (scan seen).2 (byteLength seen) text) := by
  -- The induction is on the text that is left. So far the limit has not been exceeded.
  induction text generalizing seen with
  | nil =>
    intro before after hText
    cases before <;> cases hText
  | cons c text ih =>
    rw [excessFrom]
    split
    · next hNext =>
      obtain ⟨rfl, hExceeds⟩ := (limit_lt_depthAfter hDepth).1 hNext
      refine ⟨[], text, rfl, ?_, ?_, fun _ _ _ _ => Nat.zero_le _⟩
      · rwa [List.append_nil]
      · rw [List.append_nil]
    · next hNext =>
      have hScan := scan_concat seen c
      have hLe : (scan (seen ++ [c])).2 ≤ limit := by
        rw [hScan]
        exact Nat.le_of_not_lt hNext
      have hFinds := ih (seen ++ [c]) hLe
      have hLength : byteLength (seen ++ [c]) = byteLength seen + c.utf8Size := by simp
      rw [hScan, hLength] at hFinds
      exact hFinds.cons fun hExcess => hNext ((limit_lt_depthAfter hDepth).2 hExcess)

/-- Nothing is found in a text within the limit only. -/
theorem firstExcess_eq_none {text : List Char} : firstExcess text = none ↔ IsWithinLimit text := by
  have hFinds := finds_excessFrom [] text (Nat.zero_le limit)
  change Finds [] text (firstExcess text) at hFinds
  cases h : firstExcess text with
  | none =>
    rw [h] at hFinds
    exact ⟨fun _ => hFinds, fun _ => rfl⟩
  | some offset =>
    rw [h] at hFinds
    obtain ⟨before, after, hText, hExceeds, -⟩ := hFinds
    exact ⟨nofun, fun hWithin => absurd hExceeds (hWithin before after hText)⟩

/-- What is found is the first parenthesis that exceeds the limit. -/
theorem exists_isFirstExcess {text : List Char} {offset : Nat}
    (h : firstExcess text = some offset) :
    ∃ before after, IsFirstExcess text before after ∧ offset = byteLength before := by
  have hFinds := finds_excessFrom [] text (Nat.zero_le limit)
  change Finds [] text (firstExcess text) at hFinds
  rw [h] at hFinds
  obtain ⟨before, after, hText, hExceeds, hOffset, hFirst⟩ := hFinds
  exact ⟨before, after, ⟨hText, hExceeds, hFirst⟩, hOffset⟩

end RowFilter.Nesting
