import RowFilter.Proofs.Syntax.Completion

/-! Where an error points. The grammar stops behind a gap: each rule whose failure
is noted was called for there, because only the rule for the whole is tried in front
of one. A parenthesis or number at fault stands where its error points. -/

namespace RowFilter

open Grammar Text

/-- An error that points at the place between two parts of a text. -/
inductive SyntaxError.PointsBetween (before : List Char) : List Char → SyntaxError → Prop where
  /-- The grammar stopped there. -/
  | unexpected (after : List Char) (rules : List Rule) (hGap : StopsAt isGap after) :
      PointsBetween before after (.ofExpected (before ++ after) ⟨byteLength before, rules⟩)
  /-- A piece of the text that begins there is at fault. -/
  | piece (fault : SyntaxFault) (c : Char) (after : List Char) (stop : Nat)
      (hFault : ∀ expected found, fault ≠ .unexpected expected found)
      (hLineEnd : isLineEnd c = false) :
      PointsBetween before (c :: after)
        (.ofPiece fault (before ++ c :: after) (byteLength before) stop)

variable {text : List Char} {source : String} {error : SyntaxError}

/-- The error of a text that spells no filter. -/
def Filter.error? (source : String) : Option SyntaxError :=
  match parse source with
  | .ok _ => none
  | .error error => some error

theorem Filter.error?_eq_some : error? source = some error ↔ parse source = .error error := by
  rw [error?]
  cases parse source <;> simp

/-- The grammar stops at the end of the text or in front of a character that is no gap. -/
theorem exists_place_of_parse {expected : Expected Rule}
    (h : filterGrammar.parse .filter text = .error expected) :
    ∃ before after, text = before ++ after ∧ expected.offset = byteLength before ∧
      StopsAt isGap after := by
  obtain ⟨hFails, rfl⟩ := parse_eq_error.1 h
  obtain ⟨later, hExpected, hNonempty, hAccounted⟩ :=
    exists_accounted_of_read filterGrammar_ranked rfl rfl rfl rfl hFails
  obtain ⟨other, others, hOther⟩ := List.exists_cons_of_ne_nil hNonempty
  obtain ⟨before, after, hText, hOffset, hNoted⟩ :=
    hAccounted.isNoted other (hOther ▸ List.mem_cons_self)
  refine ⟨before, after, hText, ?_, stopsAt_gap_of_isNoted hNoted⟩
  rw [hExpected, Expected.offset_note_zero, hOffset]

private theorem exists_cons_of_isTooLarge {lexeme : String} (h : isTooLarge lexeme = true) :
    ∃ c rest, lexeme.toList = c :: rest ∧ isLineEnd c = false := by
  rw [isTooLarge] at h
  cases hText : lexeme.toList with
  | nil =>
    rw [hText] at h
    cases h
  | cons c rest =>
    refine ⟨c, rest, rfl, Bool.eq_false_iff.2 fun hEnd => ?_⟩
    rw [hText] at h
    simp only [isLineEnd, Bool.or_eq_true, decide_eq_true_eq] at hEnd
    rcases hEnd with rfl | rfl <;> cases h

private theorem IsFilterMatch.exists_place {root number : Node Rule} (h : IsFilterMatch text root)
    (hNumber : IsTooLargeIn root number) :
    ∃ before c after, text = before ++ c :: after ∧ number.start.offset = byteLength before ∧
      isLineEnd c = false := by
  obtain ⟨stop, hMatches⟩ := h
  have hMem := hNumber.mem_preorder
  rw [← Node.preorderAll_singleton] at hMem
  obtain ⟨before, hText, hOffset, -⟩ :=
    (hMatches.start_standsIn (.ofText text) hMem).exists_before
  obtain ⟨c, rest, hLexeme, hEnd⟩ := exists_cons_of_isTooLarge hNumber.isTooLarge
  have hSplit := splitBytes_fst_append_snd (number.stop.offset - number.start.offset)
    number.start.rest
  rw [Node.text, String.toList_ofList, Cursor.textTo] at hLexeme
  rw [hLexeme, List.cons_append] at hSplit
  exact ⟨before, c, _, by rw [hSplit, ← hText], hOffset, hEnd⟩

/-- Each error of a text points at a place of the text. -/
theorem Filter.exists_pointsBetween (h : parse source = .error error) :
    ∃ before after, source.toList = before ++ after ∧ error.PointsBetween before after := by
  by_cases hWithin : Nesting.IsWithinLimit source.toList
  · rcases exists_isFilterMatch_or_error source.toList with ⟨root, hRoot, -⟩ | ⟨hNone, -⟩
    · by_cases hTooLarge : ∃ number, IsTooLargeIn root number
      · obtain ⟨number, hNumber, hParse⟩ := parse_of_tooLarge hWithin hRoot hTooLarge
        obtain ⟨before, c, after, hText, hOffset, hEnd⟩ :=
          hRoot.exists_place hNumber.toIsTooLargeIn
        rw [hParse, hText, hOffset] at h
        cases h
        exact ⟨before, _, hText, .piece _ c after _ nofun hEnd⟩
      · obtain ⟨filter, hParse, -⟩ := exists_parse hWithin hRoot hTooLarge
        rw [hParse] at h
        cases h
    · obtain ⟨⟨offset, rules⟩, hExpected, hParse⟩ := parse_of_no_match hWithin hNone
      obtain ⟨before, after, hText, hOffset, hGap⟩ := exists_place_of_parse hExpected
      obtain rfl : offset = byteLength before := hOffset
      rw [hParse, hText] at h
      cases h
      exact ⟨before, after, hText, .unexpected after rules hGap⟩
  · obtain ⟨before, after, hExcess, hParse⟩ := parse_of_not_isWithinLimit hWithin
    rw [hParse, hExcess.text_eq] at h
    cases h
    exact ⟨before, _, hExcess.text_eq, .piece _ '(' after _ nofun rfl⟩

end RowFilter
