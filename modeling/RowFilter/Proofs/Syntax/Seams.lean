import RowFilter.Proofs.Grammar.Resumption
import RowFilter.Proofs.Syntax.Lexemes
import RowFilter.Proofs.Syntax.Quoted

/-! Seams behind lexemes. What a rule of words, numbers or symbols takes, it
also takes in front of any other text that begins with a gap or like the text
that stood there. A name may not be followed by a sign, though: `1e` is a name
in front of `+x`, and in front of `+1` it is the beginning of a number. -/

namespace RowFilter

open Grammar Text

variable {length : Nat} {text taken behind rest : List Char}

section Classes

/-- A point or one of the signs of numbers. -/
def isSign (c : Char) : Bool := c = '.' || c = '+' || c = '-'

/-- The characters that names and numbers are made of. -/
def isWordPart (c : Char) : Bool := isNameChar c || isSign c

private theorem isWordPart_of_isNumberChar {c : Char} (h : isNumberChar c = true) :
    isWordPart c = true := by
  simp only [isNumberChar, List.mem_cons, List.not_mem_nil, or_false, Bool.or_eq_true,
    decide_eq_true_eq] at h
  rcases h with h | rfl | rfl | rfl | rfl | rfl
  · simp [isWordPart, isNameChar, Char.isAlphanum, h]
  all_goals rfl

/-- The words and numbers, and the rules that they are made of, know no end of the text. -/
theorem takes_or_fails {rule : Rule} (hRule : isPlainRule rule = true) (length : Nat)
    (text : List Char) :
    (∃ taken rest, filterGrammar.Takes length (.rule rule) text taken rest) ∨
      filterGrammar.Fails length (.rule rule) text := by
  have hRejects {rule : Rule} (h : isPlainRule rule = true) :
      (filterGrammar.body rule).rejects isPlainRule [] = true := by
    revert h
    cases rule <;> decide
  obtain ⟨outcome, hReads⟩ :=
    exists_reads filterGrammar_ranked rule .atomic (Nat.le_refl text.length)
  have hNothing : ∀ c ∈ ([] : List Char).head?, c ∈ ([] : List Char) := nofun
  have hOther := hReads.followedBy (fun _ => hRejects) hNothing length hRule
  rw [List.append_nil] at hOther
  cases outcome with
  | none => exact .inr hOther
  | some => exact .inl ⟨_, _, Reads.takes hOther⟩

end Classes

section Phrases

/-- The induction is on the words, each of which ends where no character of a name follows. -/
theorem takes_phrase_of_beginsLike (other : Nat) {word : String} {words : List String}
    (hWords : (word :: words).all isKeyword = true)
    (hNonempty : (word :: words).all (!·.toList.isEmpty) = true)
    (h : filterGrammar.Takes length (phrase word words) text taken rest)
    (hBehind : BeginsLike isGap rest behind) :
    filterGrammar.Takes other (phrase word words) (taken ++ behind) taken behind := by
  induction words generalizing word text taken with
  | nil =>
    rw [List.all_cons, Bool.and_eq_true] at hWords
    obtain ⟨hTakes, hStops⟩ := takes_wholeWord_iff_stopsAt.1 h
    obtain ⟨hLower, -⟩ := (takes_word_iff hWords.1).1 hTakes
    exact takes_wholeWord_iff_stopsAt.2 ⟨(takes_word_iff hWords.1).2 ⟨hLower, rfl⟩,
      hBehind.stopsAt hStops fun _ => isGap_eq_false rfl⟩
  | cons next words ih =>
    rw [List.all_cons, Bool.and_eq_true] at hWords hNonempty
    obtain ⟨before, middle, _, hWord, hOthers, rfl⟩ := takes_seq.1 h
    obtain ⟨gaps, _, others, hGaps, hPhrase, rfl⟩ := takes_seq.1 hOthers
    obtain ⟨hLower, -⟩ := (takes_word_iff hWords.1).1 hWord
    obtain ⟨rfl, rfl, hGap⟩ := takes_gaps_iff.1 hGaps
    have hMore := ih hWords.2 hNonempty.2 hPhrase
    have hTaken := filterGrammar_ranked.textOf_ne_nil hPhrase (phrase_consumes hNonempty.2)
    rw [Piece.textOf_chars] at hTaken
    have hEnd : StopsAt isGap (middle.dropWhile isGap) := stopsAt_dropWhile middle
    rw [hPhrase.text_eq] at hEnd
    have hStops := hEnd.append_of_ne_nil hTaken behind
    have hAllGaps : ∀ c ∈ middle.takeWhile isGap, isGap c = true := fun _ => of_mem_takeWhile
    rw [List.append_assoc, List.append_assoc]
    exact takes_seq.2 ⟨before, _, _, (takes_word_iff hWords.1).2 ⟨hLower, rfl⟩,
      takes_seq.2 ⟨_, _, _, takes_gaps_iff.2 ⟨(hStops.takeWhile_append hAllGaps).symm,
        (hStops.dropWhile_append hAllGaps).symm, hGap⟩, hMore, rfl⟩, rfl⟩

end Phrases

section Numbers

/-- A number is taken alike in front of texts that begin alike. -/
theorem takes_number_of_beginsLike (other : Nat)
    (h : filterGrammar.Takes length (.rule .number) text taken rest)
    (hBehind : BeginsLike isGap rest behind) :
    filterGrammar.Takes other (.rule .number) (taken ++ behind) taken behind := by
  obtain ⟨spelling, rfl, hStops, hPoint⟩ := exists_spelling_of_takes h
  exact takes_spelling spelling ⟨hBehind.stopsAt hStops fun _ => isGap_eq_false rfl,
    fun hFraction hExponent =>
      hBehind.stopsAt (hPoint hFraction hExponent) fun _ => isGap_eq_false (p := (· = '.')) rfl⟩

end Numbers

section Names

private theorem exists_takes_number (spelling : Spelling) (hRest : EndsName rest) :
    ∃ taken stop,
      filterGrammar.Takes length (.rule .number) (spelling.text ++ rest) taken stop := by
  by_cases hPoint : spelling.fraction = none → spelling.exponent = none → StopsAt (· = '.') rest
  · exact ⟨_, _, takes_spelling spelling ⟨hRest.stopsAt_nameChar, hPoint⟩⟩
  · simp only [Classical.not_imp] at hPoint
    obtain ⟨hFraction, hExponent, hStops⟩ := hPoint
    obtain ⟨pointed, hText, hSome⟩ := Spelling.exists_point hFraction hExponent
    cases rest with
    | nil => exact absurd trivial hStops
    | cons c rest =>
      obtain rfl : c = '.' := by simpa using hStops
      have hEnds : pointed.EndsAt rest := by
        refine ⟨hRest.stopsAt_word rfl, fun hNone => ?_⟩
        rw [hSome] at hNone
        cases hNone
      have hTakes : filterGrammar.Takes length (.rule .number) _ _ _ := takes_spelling pointed hEnds
      rw [hText, List.append_assoc] at hTakes
      exact ⟨_, _, hTakes⟩

private theorem fails_number_append (other : Nat)
    (h : filterGrammar.Fails length (.rule .number) (taken ++ rest)) (hRest : EndsName rest)
    (hBehind : StopsAt isWordPart behind) :
    filterGrammar.Fails other (.rule .number) (taken ++ behind) := by
  refine (takes_or_fails rfl other (taken ++ behind)).resolve_left ?_
  rintro ⟨_, stop, hTakes⟩
  obtain ⟨spelling, rfl, hEnds⟩ := exists_spelling_of_takes hTakes
  have hText := hTakes.text_eq
  suffices ∃ before middle,
      filterGrammar.Takes length (.rule .number) (taken ++ rest) before middle by
    obtain ⟨_, _, hNumber⟩ := this
    cases hNumber.unique h
  rcases List.append_eq_append_iff.1 hText with ⟨more, hSpelling, hMore⟩ | ⟨more, rfl, rfl⟩
  · have hNil : more = [] := by
      cases more with
      | nil => rfl
      | cons c more =>
        have hMem : c ∈ spelling.text := by simp [hSpelling]
        have hPart := isWordPart_of_isNumberChar (spelling.isNumberChar c hMem)
        rw [hMore, List.cons_append, stopsAt_cons, hPart] at hBehind
        cases hBehind
    rw [hNil, List.append_nil] at hSpelling
    rw [← hSpelling]
    exact exists_takes_number spelling hRest
  · rw [List.append_assoc]
    by_cases hNil : more = []
    · rw [hNil]
      exact exists_takes_number spelling hRest
    · exact ⟨_, _, takes_spelling spelling ⟨hEnds.stopsAt_nameChar.append_of_ne_nil hNil rest,
        fun hFraction hExponent =>
          (hEnds.stopsAt_point hFraction hExponent).append_of_ne_nil hNil rest⟩⟩

private theorem fails_reserved_append (other : Nat)
    (h : filterGrammar.Fails length (.rule .reserved) (taken ++ rest))
    (hRest : StopsAt isNameChar rest) (hBehind : StopsAt isNameChar behind) :
    filterGrammar.Fails other (.rule .reserved) (taken ++ behind) := by
  refine (takes_or_fails rfl other (taken ++ behind)).resolve_left ?_
  rintro ⟨_, _, hTakes⟩
  obtain ⟨word, hMem, hFirst⟩ := firstWord_of_takes_reserved hTakes
  refine firstWord_of_fails_reserved h word hMem ?_
  rw [← hFirst, firstWord, firstWord, hRest.takeWhile_append_left, hBehind.takeWhile_append_left]

/-- A name is taken alike in front of texts that begin alike, unless a sign follows a gap. -/
theorem takes_name_of_beginsLike (other : Nat)
    (h : filterGrammar.Takes length (.rule .name) text taken rest)
    (hBehind : BeginsLike isGap rest behind)
    (hSign : StopsAt isSign (Mode.initial.behindGap isGap behind)) :
    filterGrammar.Takes other (.rule .name) (taken ++ behind) taken behind := by
  obtain ⟨hReserved, hNumber, rfl, hDotted, hRest⟩ := takes_name_iff.1 h
  have hStops : StopsAt isNameChar behind :=
    hBehind.stopsAt hRest.stopsAt_nameChar fun _ => isGap_eq_false rfl
  have hPart : StopsAt isWordPart behind := by
    cases behind with
    | nil => trivial
    | cons c behind =>
      refine Bool.or_eq_false_iff.2 ⟨hStops, Bool.eq_false_iff.2 fun hc => ?_⟩
      have hGap : isGap c = false := isGap_eq_false rfl hc
      have hSame : (c :: behind).dropWhile isGap = c :: behind :=
        List.dropWhile_cons_of_neg (by simp [hGap])
      change StopsAt isSign ((c :: behind).dropWhile isGap) at hSign
      rw [hSame, stopsAt_cons, hc] at hSign
      cases hSign
  refine takes_name_iff.2 ⟨fails_reserved_append other hReserved hRest.stopsAt_nameChar hStops,
    fails_number_append other hNumber hRest hPart, rfl, hDotted, hStops, ?_⟩
  rintro _ rfl
  cases hPart

end Names

section Symbols

private def isSymbol (word : String) : Bool :=
  word.toList.length ≤ 2 && word.toList.all (!isGap ·)

private theorem fails_symbol_append (other : Nat) {word : String} (hWord : isSymbol word = true)
    (h : filterGrammar.Fails length (.literal word) (taken ++ rest)) (hTaken : taken ≠ [])
    (hBehind : BeginsLike isGap rest behind) :
    filterGrammar.Fails other (.literal word) (taken ++ behind) := by
  rw [fails_literal_iff] at h ⊢
  rw [isSymbol, Bool.and_eq_true, decide_eq_true_eq] at hWord
  obtain ⟨hLength, hGaps⟩ := hWord
  rw [List.all_eq_true] at hGaps
  obtain ⟨a, taken, rfl⟩ := List.exists_cons_of_ne_nil hTaken
  intro hPrefix
  apply h
  generalize word.toList = symbol at hLength hGaps hPrefix ⊢
  match symbol with
  | [] => exact List.nil_prefix
  | [b] => simpa using hPrefix
  | [b, c] =>
    rw [List.cons_append, List.cons_prefix_cons] at hPrefix ⊢
    refine ⟨hPrefix.1, ?_⟩
    cases taken with
    | cons d taken => simpa using hPrefix.2
    | nil =>
      obtain ⟨others, rfl⟩ := hPrefix.2
      rcases hBehind c rfl with hGap | hHead
      · simp [hGap] at hGaps
      · obtain ⟨others, rfl⟩ := List.head?_eq_some_iff.1 hHead
        exact List.prefix_append [c] others
  | _ :: _ :: _ :: _ => simp at hLength

private theorem takes_symbols_of_beginsLike (other : Nat) {word : String} {words : List String}
    (hWords : (word :: words).all isSymbol = true) (hTaken : taken ≠ [])
    (h : filterGrammar.Takes length (Rule.firstOf (.literal word) (words.map .literal))
      text taken rest)
    (hBehind : BeginsLike isGap rest behind) :
    filterGrammar.Takes other (Rule.firstOf (.literal word) (words.map .literal))
      (taken ++ behind) taken behind := by
  induction words generalizing word with
  | nil =>
    obtain ⟨rfl, -⟩ := takes_literal.1 h
    exact takes_literal.2 ⟨rfl, rfl⟩
  | cons next words ih =>
    rw [List.all_cons, Bool.and_eq_true] at hWords
    rcases takes_choice.1 h with h | ⟨hFails, h⟩
    · obtain ⟨rfl, -⟩ := takes_literal.1 h
      exact takes_choice.2 (.inl (takes_literal.2 ⟨rfl, rfl⟩))
    · rw [h.text_eq] at hFails
      exact takes_choice.2 (.inr ⟨fails_symbol_append other hWords.1 hFails hTaken hBehind,
        ih hWords.2 h⟩)

theorem takes_comparisonSymbol_of_beginsLike (other : Nat)
    (h : filterGrammar.Takes length (.rule .comparisonSymbol) text taken rest)
    (hBehind : BeginsLike isGap rest behind) :
    filterGrammar.Takes other (.rule .comparisonSymbol) (taken ++ behind) taken behind := by
  have hTaken := filterGrammar_ranked.textOf_ne_nil h rfl
  have hBody : filterGrammar.body .comparisonSymbol =
      Rule.firstOf (.literal "!=") ([">=", "<=", "<", ">", "="].map .literal) := rfl
  rw [Piece.textOf_chars] at hTaken
  rw [takes_rule, hBody] at h ⊢
  exact takes_symbols_of_beginsLike other rfl hTaken h hBehind

end Symbols

end RowFilter
