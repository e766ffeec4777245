import RowFilter.Proofs.Syntax.ErrorPlace

/-! The text that an error of the grammar shows as found. It is looked for behind
blanks of all scripts, but the grammar skips only four kinds of them. So it stands
at the offset of the error unless another kind of blank stands there. -/

namespace RowFilter

open Text

namespace SyntaxError

variable {text : List Char} {token : String} {source : String} {error : SyntaxError}
  {expected : List Rule} {found : Option String}

private theorem foundToken_eq_none : foundToken text = none ↔ text.dropWhile isBlank = [] := by
  rw [foundToken]
  split
  · next hNil => exact ⟨fun _ => hNil, fun _ => rfl⟩
  · next hCons =>
    rw [hCons]
    simp only [reduceCtorEq, iff_false]
    split
    · exact Option.some_ne_none _
    split <;> exact Option.some_ne_none _

private theorem run_spec {p : Char → Bool} {first : Char} {rest : List Char}
    (hToken : String.ofList (((first :: rest).take tokenLimit).takeWhile p) = token)
    (h : p first = true) :
    token ≠ "" ∧ token.length ≤ 32 ∧ token.toList <+: first :: rest := by
  have hPrefix := List.takeWhile_prefix p (l := (first :: rest).take tokenLimit)
  rw [← hToken, String.length_ofList, String.toList_ofList, ne_eq, String.ofList_eq_empty_iff]
  refine ⟨?_, Nat.le_trans hPrefix.length_le (List.length_take_le ..),
    hPrefix.trans (List.take_prefix ..)⟩
  rw [tokenLimit, List.take_succ_cons, List.takeWhile_cons_of_pos h]
  exact List.cons_ne_nil _ _

/-- What is shown as found begins what stands behind blanks. -/
theorem foundToken_spec (h : foundToken text = some token) :
    token ≠ "" ∧ token.length ≤ 32 ∧ token.toList <+: text.dropWhile isBlank := by
  rw [foundToken] at h
  split at h
  · cases h
  · next first rest hCons =>
    rw [hCons]
    dsimp only at h
    split at h
    · next hWord => exact run_spec (Option.some.inj h) hWord
    split at h
    · next hOperator => exact run_spec (Option.some.inj h) hOperator
    · obtain rfl := Option.some.inj h
      rw [String.toList_singleton, String.length_singleton]
      exact ⟨String.singleton_ne_empty, by decide, rest, rfl⟩

/-- Whether the token of an error stands at its offset, and is missing at the end of the text
only. -/
def TokenIsAtOffset (source : String) (error : SyntaxError) : Prop :=
  (error.token = none ↔ error.offset = byteLength source.toList) ∧
    ∀ token, error.token = some token → token ≠ "" ∧ token.length ≤ 32 ∧
      ∃ before after, source.toList = before ++ token.toList ++ after ∧
        error.offset = byteLength before

private theorem tokenIsAtOffset_iff_stopsAt {before after : List Char}
    (hText : source.toList = before ++ after) (hOffset : error.offset = byteLength before)
    (hToken : error.token = foundToken after) :
    error.TokenIsAtOffset source ↔ StopsAt isBlank after := by
  have hEnd : error.offset = byteLength source.toList ↔ after = [] := by
    rw [hOffset, hText, byteLength_append, Nat.left_eq_add, byteLength_eq_zero]
  rw [TokenIsAtOffset, hEnd, hToken, foundToken_eq_none]
  constructor
  · rintro ⟨hNone, hSome⟩
    cases hFound : foundToken after with
    | none =>
      rw [hNone.1 (foundToken_eq_none.1 hFound)]
      exact stopsAt_nil
    | some token =>
      obtain ⟨-, -, first, rest, hSplit, hFirst⟩ := hSome token hFound
      obtain ⟨hNonempty, -, hPrefix⟩ := foundToken_spec hFound
      rw [List.append_assoc] at hSplit
      obtain ⟨-, hAfter⟩ := append_inj_of_byteLength (hText.symm.trans hSplit)
        (hOffset.symm.trans hFirst)
      have hStops : StopsAt isBlank (token.toList ++ []) := by
        rw [List.append_nil]
        exact (stopsAt_dropWhile after).of_isPrefix hPrefix
      rw [hAfter]
      exact hStops.append_of_ne_nil (mt String.toList_eq_nil_iff.1 hNonempty) rest
  · intro hStops
    rw [hStops.dropWhile_eq_self]
    refine ⟨Iff.rfl, fun token hFound => ?_⟩
    obtain ⟨hNonempty, hLength, rest, hRest⟩ := foundToken_spec hFound
    rw [hStops.dropWhile_eq_self] at hRest
    refine ⟨hNonempty, hLength, before, rest, ?_, hOffset⟩
    rw [List.append_assoc, hRest, hText]

/-- What an error of the grammar shows as found begins what stands behind the blanks at its
offset. It stands at the offset itself exactly if no blank does, and a blank that does is none
that may stand between tokens. -/
theorem tokenIsAtOffset_iff (h : Filter.parse source = .error error)
    (hFault : error.fault = .unexpected expected found) :
    ∃ before after, source.toList = before ++ after ∧ error.offset = byteLength before ∧
      found = error.token ∧ (error.token = none ↔ after.dropWhile isBlank = []) ∧
      (∀ token, error.token = some token → token ≠ "" ∧ token.length ≤ 32 ∧
        token.toList <+: after.dropWhile isBlank) ∧
      StopsAt isGap after ∧ (error.TokenIsAtOffset source ↔ StopsAt isBlank after) := by
  obtain ⟨before, after, hText, hPlace⟩ := Filter.exists_pointsBetween h
  cases hPlace with
  | piece _ _ _ _ hNot => exact absurd hFault (hNot expected found)
  | unexpected _ rules hGap =>
    cases hFault
    have hToken : (ofExpected (before ++ after) ⟨byteLength before, rules⟩).token =
        foundToken after := by
      rw [ofExpected, splitBytes_append]
    refine ⟨before, after, hText, rfl, rfl, ?_, ?_, hGap, ?_⟩
    · rw [hToken, foundToken_eq_none]
    · rw [hToken]
      exact fun token => foundToken_spec
    · exact tokenIsAtOffset_iff_stopsAt hText rfl hToken

/-- A name behind a condition is the token of the error. -/
theorem tokenIsAtOffset_iff_word :
    ∃ error expected found, Filter.parse "a = 1 b" = .error error ∧
      error.fault = .unexpected expected found ∧
      ∃ before after, "a = 1 b".toList = before ++ after ∧ error.offset = byteLength before ∧
        found = error.token ∧ (error.token = none ↔ after.dropWhile isBlank = []) ∧
        (∀ token, error.token = some token → token ≠ "" ∧ token.length ≤ 32 ∧
          token.toList <+: after.dropWhile isBlank) ∧
        StopsAt isGap after ∧ (error.TokenIsAtOffset "a = 1 b" ↔ StopsAt isBlank after) := by
  have hFault : (Filter.error? "a = 1 b").map fault =
      some (.unexpected [.endOfInput, .keywordAnd, .keywordOr] (some "b")) := by decide +kernel
  obtain ⟨error, hError, hFault⟩ := Option.map_eq_some_iff.1 hFault
  have hParse := Filter.error?_eq_some.1 hError
  exact ⟨error, _, _, hParse, hFault, tokenIsAtOffset_iff hParse hFault⟩

/-- At a blank of another kind the error stands in front of the blank and says that the text
ends there. -/
theorem not_tokenIsAtOffset_blank :
    ∃ error expected found, Filter.parse "a = 1\u00A0" = .error error ∧
      error.fault = .unexpected expected found ∧ error.token = none ∧ error.offset = 5 ∧
      byteLength "a = 1\u00A0".toList = 7 ∧ ¬error.TokenIsAtOffset "a = 1\u00A0" := by
  have hParts : (Filter.error? "a = 1\u00A0").map (fun error =>
      (error.fault, error.token, error.offset)) =
        some (.unexpected [.endOfInput, .keywordAnd, .keywordOr] none, none, 5) := by
    decide +kernel
  obtain ⟨error, hError, hParts⟩ := Option.map_eq_some_iff.1 hParts
  obtain ⟨hFault, hToken, hOffset⟩ : error.fault = _ ∧ error.token = _ ∧ error.offset = _ := by
    simpa only [Prod.mk.injEq] using hParts
  refine ⟨error, _, _, Filter.error?_eq_some.1 hError, hFault, hToken, hOffset, by decide,
    fun hAt => ?_⟩
  have hEnd := hAt.1.1 hToken
  rw [hOffset] at hEnd
  exact absurd hEnd (by decide)

end SyntaxError

end RowFilter
