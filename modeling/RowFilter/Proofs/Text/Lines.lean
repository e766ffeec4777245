import Mathlib.Data.List.DropRight
import RowFilter.Proofs.Text.Stops
import RowFilter.Text.Position

/-! Lines and columns. A column counts the characters of the line in front of a
place, and both scans of line ends count alike. Of a line without its last
characters of a class, what is left is as it was. -/

namespace RowFilter.Text

section Columns

private theorem scanLineEnds_eq (p : Position) (text : List Char) :
    p.scanLineEnds text = text.foldl Position.advance p := by
  induction p, text using Position.scanLineEnds.induct with
  | case1 p => rfl
  | case2 p text ih => simpa [Position.scanLineEnds, Position.advance] using ih
  | case3 p text ih => simpa [Position.scanLineEnds, Position.advance] using ih
  | case4 p c text hReturn hFeed ih =>
    have hFeed : c ≠ '\n' := fun hc => hFeed hc
    rw [Position.scanLineEnds]
    · simpa [Position.advance, hFeed] using ih
    · exact hReturn
    · exact hFeed

/-- Both scans of line ends count alike. -/
theorem Position.afterLineEnds_eq (text : List Char) : afterLineEnds text = after text :=
  scanLineEnds_eq first text

private theorem lineStart_concat (text : List Char) (c : Char) :
    lineStart (text ++ [c]) = if c = '\n' then [] else lineStart text ++ [c] := by
  rw [lineStart, List.reverse_concat]
  split
  · next h =>
    subst h
    rfl
  · next h =>
    rw [List.takeWhile_cons_of_pos (by simpa using h), List.reverse_cons]
    rfl

/-- A column counts the characters between the last line feed and the place. -/
theorem Position.column_after (text : List Char) :
    (after text).column = (lineStart text).length + 1 := by
  induction text using List.reverseRecOn with
  | nil => rfl
  | append_singleton text c ih =>
    rw [after, List.foldl_concat, ← after, advance, lineStart_concat]
    split
    · rfl
    · rw [List.length_append, ih]
      rfl

/-- A line counts the line feeds in front of the place. -/
theorem Position.line_after (text : List Char) : (after text).line = text.count '\n' + 1 := by
  induction text using List.reverseRecOn with
  | nil => rfl
  | append_singleton text c ih =>
    rw [after, List.foldl_concat, ← after, advance, List.count_append]
    split
    · next h =>
      rw [h, List.count_singleton_self, ih]
    · next h =>
      rw [List.count_singleton, if_neg (by simpa using h), Nat.add_zero]
      exact ih

/-- The beginning of a line holds no line feed. -/
theorem lineFeed_not_mem_lineStart (text : List Char) : '\n' ∉ lineStart text := by
  intro h
  exact absurd (of_mem_takeWhile (List.mem_reverse.1 h)) (by decide)

end Columns

section Trimming

variable {p : Char → Bool} {c : Char}

private theorem trimEnd_eq_nil {text : List Char} : trimEnd p text = [] ↔ ∀ c ∈ text, p c = true :=
  List.rdropWhile_eq_nil_iff

/-- A text is trimmed to one of its beginnings. -/
theorem trimEnd_isPrefix (p : Char → Bool) (text : List Char) : trimEnd p text <+: text :=
  List.rdropWhile_prefix p text

/-- A text is what is left of it and characters of the class behind that. -/
theorem exists_trimEnd_append (p : Char → Bool) (text : List Char) :
    ∃ dropped, text = trimEnd p text ++ dropped ∧ ∀ c ∈ dropped, p c = true :=
  ⟨text.rtakeWhile p, List.rdropWhile_append_rtakeWhile.symm,
    fun _ => List.mem_rtakeWhile_imp⟩

/-- Trimming does not go beyond a text of which something is left. -/
theorem trimEnd_append (text more : List Char) :
    trimEnd p (text ++ more) =
      if trimEnd p more = [] then trimEnd p text else text ++ trimEnd p more := by
  simp only [trimEnd, List.reverse_append, List.dropWhile_append, List.isEmpty_iff,
    List.reverse_eq_nil_iff]
  split <;> simp

/-- The first character of a text is left unless it and all that follow are of the class. -/
theorem getElem?_trimEnd (text more : List Char) :
    (trimEnd p (text ++ more))[text.length]? = if more.all p then none else more.head? := by
  rw [trimEnd_append]
  split
  · next hNil =>
    rw [if_pos (List.all_eq_true.2 (trimEnd_eq_nil.1 hNil))]
    exact List.getElem?_eq_none (trimEnd_isPrefix p text).length_le
  · next hSome =>
    obtain ⟨hidden, hMore⟩ := trimEnd_isPrefix p more
    have hHead : (trimEnd p more ++ hidden).head? = (trimEnd p more).head? :=
      List.head?_append_of_ne_nil _ hSome
    rw [hMore] at hHead
    rw [if_neg fun hAll => hSome (trimEnd_eq_nil.2 (List.all_eq_true.1 hAll)),
      List.getElem?_append_right (Nat.le_refl _), Nat.sub_self, ← List.head?_eq_getElem?, hHead]

end Trimming

section Lines

variable {c : Char} {after : List Char}

theorem lineRest_cons (h : c ≠ '\n') : lineRest (c :: after) = c :: lineRest after := by
  simp [lineRest, h]

/-- A text that begins with no line end begins its line. -/
theorem head?_filter_lineRest (h : StopsAt isLineEnd after) :
    ((lineRest after).filter (!isLineEnd ·)).head? = after.head? := by
  cases after with
  | nil => rfl
  | cons c after =>
    have hFeed : c ≠ '\n' := fun hc => by simp [isLineEnd, hc] at h
    rw [lineRest_cons hFeed, List.filter_cons_of_pos (by simpa using h)]
    rfl

/-- A line without its line feed is shorter by its carriage returns once these are dropped. -/
theorem length_filter_lineEnds {line : List Char} (h : '\n' ∉ line) :
    (line.filter fun c => !isLineEnd c).length = line.length - line.count '\r' := by
  induction line with
  | nil => rfl
  | cons c line ih =>
    obtain ⟨hFeed, hLine⟩ := not_or.1 (mt List.mem_cons.2 h)
    have hCount : line.count '\r' ≤ line.length := List.count_le_length
    by_cases hReturn : c = '\r'
    · subst hReturn
      simpa [isLineEnd] using ih hLine
    · have hEnd : isLineEnd c = false := by simp [isLineEnd, Ne.symm hFeed, hReturn]
      rw [List.filter_cons_of_pos (by simp [hEnd]), List.length_cons, ih hLine,
        List.count_cons_of_ne hReturn, List.length_cons]
      omega

/-- The line around a place has a line feed at its end only. -/
theorem lineFeed_not_mem_trimEnd_lineAround (before after : List Char) :
    '\n' ∉ trimEnd isLineEnd (lineAround before after) := by
  have hFeed : trimEnd isLineEnd ((after.dropWhile (· ≠ '\n')).take 1) = [] := by
    refine trimEnd_eq_nil.2 fun c hc => ?_
    cases hRest : after.dropWhile (· ≠ '\n') with
    | nil =>
      rw [hRest] at hc
      cases hc
    | cons d rest =>
      have hFirst := stopsAt_dropWhile (p := (· ≠ '\n')) after
      rw [hRest] at hc hFirst
      obtain rfl := List.mem_singleton.1 hc
      have hLineFeed : c = '\n' := by simpa using hFirst
      rw [hLineFeed]
      rfl
  rw [lineAround, lineRest, ← List.append_assoc, trimEnd_append, if_pos hFeed]
  intro h
  rcases List.mem_append.1 ((trimEnd_isPrefix ..).subset h) with h | h
  · exact lineFeed_not_mem_lineStart before h
  · exact absurd (of_mem_takeWhile h) (by decide)

end Lines

end RowFilter.Text
