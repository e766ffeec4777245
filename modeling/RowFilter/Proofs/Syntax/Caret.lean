import RowFilter.Proofs.Syntax.ErrorPlace
import RowFilter.Proofs.Text.Lines

/-! The caret of a report. Its column counts all characters in front of the place
of an error. The line over it is the one of the text, except that an error of the
grammar drops carriage returns and trailing marks of line ends from it. So the
caret stands under the character the error points at if no carriage return stands
in front of it on its line and not only marks follow. -/

namespace RowFilter

open Text

namespace SyntaxError

/-- The character of the shown line that stands over the caret. -/
def overCaret (error : SyntaxError) : Option Char :=
  error.snippet.toList[error.position.column - 1]?

/-- A mark that makes a line end visible. -/
def isLineMark (c : Char) : Bool := c = '␊' || c = '␍'

/-- Whether a text goes on with marks only up to the end of the line, line ends apart. -/
def onlyLineMarks (text : List Char) : Bool :=
  ((lineRest text).filter fun c => !isLineEnd c).all isLineMark

/-- Whether the caret stands under the character at the offset of an error, or behind the shown
line where the text ends. -/
def CaretIsUnder (source : String) (error : SyntaxError) : Prop :=
  ∃ before after, source.toList = before ++ after ∧ error.offset = byteLength before ∧
    if after = [] then error.snippet.length ≤ error.position.column - 1
    else error.overCaret = after.head?

variable {before after : List Char} {source : String} {error : SyntaxError}

namespace PointsBetween

/-- An error has the byte offset of the place that it points at. -/
theorem offset_eq (h : error.PointsBetween before after) : error.offset = byteLength before := by
  cases h <;> rfl

/-- An error has the column of the place that it points at. -/
theorem column_eq (h : error.PointsBetween before after) :
    error.position.column = (lineStart before).length + 1 := by
  have hPosition : error.position = .afterLineEnds before := by
    cases h with
    | unexpected => rw [ofExpected, splitBytes_append]
    | piece => rw [ofPiece, splitBytes_append]
  rw [hPosition, Position.afterLineEnds_eq, Position.column_after]

private theorem stopsAt_lineEnd_of_gap (h : StopsAt isGap after) : StopsAt isLineEnd after := by
  refine h.mono fun c hc => ?_
  simp only [isLineEnd, Bool.or_eq_true, decide_eq_true_eq] at hc
  rcases hc with rfl | rfl <;> rfl

private theorem snippet_unexpected {rules : List Rule} (hGap : StopsAt isGap after) :
    (ofExpected (before ++ after) ⟨byteLength before, rules⟩).snippet.toList =
      trimEnd isLineMark ((lineStart before).filter (!isLineEnd ·) ++
        (lineRest after).filter (!isLineEnd ·)) := by
  have hHead : (after.head?.map isLineEnd).getD false = false := by
    cases after with
    | nil => rfl
    | cons c after => exact stopsAt_lineEnd_of_gap hGap
  rw [ofExpected, splitBytes_append, String.toList_ofList, visibleLine, hHead, lineAround,
    ← List.filter_append]
  rfl

private theorem snippet_piece {fault : SyntaxFault} {stop : Nat} :
    (ofPiece fault (before ++ after) (byteLength before) stop).snippet.toList =
      trimEnd isLineEnd (lineAround before after) := by
  rw [ofPiece, splitBytes_append, String.toList_ofList]

/-- A single line is shown. -/
theorem lineFeed_not_mem_snippet (h : error.PointsBetween before after) :
    '\n' ∉ error.snippet.toList := by
  cases h with
  | unexpected _ _ hGap =>
    rw [snippet_unexpected hGap, ← List.filter_append]
    intro hFeed
    have hKept := (List.mem_filter.1 ((trimEnd_isPrefix ..).subset hFeed)).2
    cases hKept
  | piece =>
    rw [snippet_piece]
    exact lineFeed_not_mem_trimEnd_lineAround before _

/-- The report has the caret in its third line, behind as many blanks as characters stand in front
of the place on its line. -/
theorem report_eq (h : error.PointsBetween before after) :
    error.report = error.place ++ ":\n" ++ error.snippet ++ "\n" ++
      String.ofList (List.replicate (lineStart before).length ' ') ++ "^\n" ++ error.detail := by
  rw [report, h.column_eq, Nat.add_sub_cancel]

/-- A piece of the text stands over the caret. -/
theorem overCaret_eq (h : error.PointsBetween before after)
    (hFault : ∀ expected found, error.fault ≠ .unexpected expected found) :
    after ≠ [] ∧ error.overCaret = after.head? := by
  rw [overCaret, h.column_eq, Nat.add_sub_cancel]
  cases h with
  | unexpected => exact absurd rfl (hFault _ _)
  | piece fault c after stop _ hEnd =>
    have hFeed : c ≠ '\n' := fun hc => by simp [isLineEnd, hc] at hEnd
    rw [snippet_piece, lineAround, lineRest_cons hFeed, getElem?_trimEnd, if_neg (by simp [hEnd])]
    exact ⟨List.cons_ne_nil _ _, rfl⟩

/-- What an error of the grammar points at is shown as many columns before the caret as carriage
returns are dropped in front of it, unless only marks follow. -/
theorem getElem?_snippet (h : error.PointsBetween before after) {expected : List Rule}
    {found : Option String} (hFault : error.fault = .unexpected expected found) :
    error.snippet.toList[(lineStart before).length - (lineStart before).count '\r']? =
      if onlyLineMarks after then none else after.head? := by
  cases h with
  | piece _ _ _ _ hNot => exact absurd hFault (hNot expected found)
  | unexpected _ rules hGap =>
    rw [snippet_unexpected hGap, ← length_filter_lineEnds (lineFeed_not_mem_lineStart before),
      getElem?_trimEnd, head?_filter_lineRest (stopsAt_lineEnd_of_gap hGap), onlyLineMarks]

/-- At the end of a text all of its last line is shown but carriage returns and trailing marks. -/
theorem exists_marks_of_end (h : error.PointsBetween before []) :
    ∃ marks, (lineStart before).filter (!isLineEnd ·) = error.snippet.toList ++ marks ∧
      ∀ c ∈ marks, isLineMark c = true := by
  obtain ⟨marks, hLine, hMarks⟩ :=
    exists_trimEnd_append isLineMark ((lineStart before).filter (!isLineEnd ·))
  refine ⟨marks, ?_, hMarks⟩
  cases h with
  | unexpected _ _ hGap =>
    rw [snippet_unexpected hGap]
    change _ = trimEnd isLineMark ((lineStart before).filter (!isLineEnd ·) ++ []) ++ marks
    rw [List.append_nil]
    exact hLine

/-- At the end of a text the caret stands behind all that is shown. -/
theorem length_le_of_end (h : error.PointsBetween before []) :
    error.snippet.length ≤ error.position.column - 1 := by
  obtain ⟨marks, hLine, -⟩ := h.exists_marks_of_end
  have hLength := congrArg List.length hLine
  have hLe := (lineStart before).length_filter_le (!isLineEnd ·)
  rw [List.length_append, String.length_toList] at hLength
  rw [h.column_eq]
  omega

/-- The caret is right where the shown line has the character of the text, or the text ends. -/
theorem caretIsUnder_iff (h : error.PointsBetween before after)
    (hText : source.toList = before ++ after) :
    error.CaretIsUnder source ↔ after = [] ∨ error.overCaret = after.head? := by
  constructor
  · rintro ⟨first, rest, hSplit, hOffset, hUnder⟩
    obtain ⟨rfl, rfl⟩ := append_inj_of_byteLength (hText.symm.trans hSplit)
      (h.offset_eq.symm.trans hOffset)
    split at hUnder
    · next hEnd => exact .inl hEnd
    · exact .inr hUnder
  · intro hUnder
    refine ⟨before, after, hText, h.offset_eq, ?_⟩
    split
    · next hEnd =>
      subst hEnd
      exact h.length_le_of_end
    · next hMore => exact hUnder.resolve_left hMore

end PointsBetween

/-- The caret of a report stands on a line of its own, one column behind what is in front of the
place on its line. It stands under the character there if that begins a parenthesis or number at
fault, and behind the shown line if the text ends there. An error of the grammar drops the carriage
returns in front of the character, which is then shown further left, and hides it if only marks
follow. -/
theorem caretIsUnder_of_parse (h : Filter.parse source = .error error) :
    ∃ before after, source.toList = before ++ after ∧ error.offset = byteLength before ∧
      error.position.column = (lineStart before).length + 1 ∧ '\n' ∉ error.snippet.toList ∧
      error.report = error.place ++ ":\n" ++ error.snippet ++ "\n" ++
        String.ofList (List.replicate (lineStart before).length ' ') ++ "^\n" ++ error.detail ∧
      (after = [] → error.CaretIsUnder source ∧
        ∃ marks, (lineStart before).filter (!isLineEnd ·) = error.snippet.toList ++ marks ∧
          ∀ c ∈ marks, isLineMark c = true) ∧
      ((∀ expected found, error.fault ≠ .unexpected expected found) →
        error.CaretIsUnder source) ∧
      ∀ expected found, error.fault = .unexpected expected found →
        error.snippet.toList[(lineStart before).length - (lineStart before).count '\r']? =
          (if onlyLineMarks after then none else after.head?) ∧
        ('\r' ∉ lineStart before →
          (error.CaretIsUnder source ↔ after = [] ∨ onlyLineMarks after = false)) := by
  obtain ⟨before, after, hText, hPlace⟩ := Filter.exists_pointsBetween h
  have hUnder := hPlace.caretIsUnder_iff hText
  refine ⟨before, after, hText, hPlace.offset_eq, hPlace.column_eq,
    hPlace.lineFeed_not_mem_snippet, hPlace.report_eq, fun hEnd => ⟨hUnder.2 (.inl hEnd), ?_⟩,
    fun hFault => hUnder.2 (.inr (hPlace.overCaret_eq hFault).2), fun expected found hFault => ?_⟩
  · subst hEnd
    exact hPlace.exists_marks_of_end
  have hShown := hPlace.getElem?_snippet hFault
  refine ⟨hShown, fun hReturn => ?_⟩
  rw [List.count_eq_zero.2 hReturn, Nat.sub_zero] at hShown
  rw [hUnder, overCaret, hPlace.column_eq, Nat.add_sub_cancel, hShown]
  cases after with
  | nil => simp
  | cons c after => cases onlyLineMarks (c :: after) <;> simp

/-- A name behind a condition is what the caret stands under. -/
theorem caretIsUnder_of_parse_word :
    ∃ error, Filter.parse "a = 1 b" = .error error ∧
      ∃ before after, "a = 1 b".toList = before ++ after ∧ error.offset = byteLength before ∧
        error.position.column = (lineStart before).length + 1 ∧ '\n' ∉ error.snippet.toList ∧
        error.report = error.place ++ ":\n" ++ error.snippet ++ "\n" ++
          String.ofList (List.replicate (lineStart before).length ' ') ++ "^\n" ++ error.detail ∧
        (after = [] → error.CaretIsUnder "a = 1 b" ∧
          ∃ marks, (lineStart before).filter (!isLineEnd ·) = error.snippet.toList ++ marks ∧
            ∀ c ∈ marks, isLineMark c = true) ∧
        ((∀ expected found, error.fault ≠ .unexpected expected found) →
          error.CaretIsUnder "a = 1 b") ∧
        ∀ expected found, error.fault = .unexpected expected found →
          error.snippet.toList[(lineStart before).length - (lineStart before).count '\r']? =
            (if onlyLineMarks after then none else after.head?) ∧
          ('\r' ∉ lineStart before →
            (error.CaretIsUnder "a = 1 b" ↔ after = [] ∨ onlyLineMarks after = false)) := by
  have hSome : (Filter.error? "a = 1 b").isSome = true := by decide +kernel
  obtain ⟨error, hError⟩ := Option.isSome_iff_exists.1 hSome
  have hParse := Filter.error?_eq_some.1 hError
  exact ⟨error, hParse, caretIsUnder_of_parse hParse⟩

/-- Behind a carriage return the caret of a report stands too far right. -/
theorem not_caretIsUnder_carriageReturn :
    ∃ error, Filter.parse "a = 1 \r b" = .error error ∧ error.offset = 8 ∧
      error.snippet = "a = 1  b" ∧ error.position = ⟨1, 9⟩ ∧
      ¬error.CaretIsUnder "a = 1 \r b" := by
  have hParts : (Filter.error? "a = 1 \r b").map (fun error =>
      (error.offset, error.snippet, error.position)) = some (8, "a = 1  b", ⟨1, 9⟩) := by
    decide +kernel
  obtain ⟨error, hError, hParts⟩ := Option.map_eq_some_iff.1 hParts
  obtain ⟨hOffset, hSnippet, hPosition⟩ :
      error.offset = _ ∧ error.snippet = _ ∧ error.position = _ := by
    simpa only [Prod.mk.injEq] using hParts
  refine ⟨error, Filter.error?_eq_some.1 hError, hOffset, hSnippet, hPosition, ?_⟩
  rintro ⟨before, after, hText, hBefore, hUnder⟩
  have hSplit : "a = 1 \r b".toList = "a = 1 \r ".toList ++ ['b'] := by decide
  obtain ⟨rfl, rfl⟩ := append_inj_of_byteLength (hText.symm.trans hSplit)
    (hBefore.symm.trans hOffset)
  rw [if_neg (List.cons_ne_nil _ _), overCaret, hSnippet, hPosition] at hUnder
  cases hUnder

end SyntaxError

end RowFilter
