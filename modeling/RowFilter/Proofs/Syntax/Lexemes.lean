import RowFilter.Proofs.Syntax.Number
import RowFilter.Proofs.Syntax.Ranking
import RowFilter.Proofs.Text.Letters
import RowFilter.Proofs.Text.Longest

/-! The lexemes of filters without the grammar. The rules of numbers and
names take the longest text of their kind, and the rules of keywords take a
whole run of name characters, in any case. -/

namespace RowFilter

open Grammar Text

variable {length : Nat} {text taken rest : List Char}

private theorem isLongest_of_takes (length : Nat) {p : List Char → Bool} {expr : Expr Rule}
    (hWhole : ∀ other, p other = true → filterGrammar.Takes length expr other other [])
    (hKind : p taken = true)
    (hEnds : ∀ behind, behind <+: rest →
      filterGrammar.Takes length expr (taken ++ behind) taken behind) :
    IsLongest p (taken ++ rest) taken := by
  -- A text is taken in one way only.
  refine ⟨hKind, List.prefix_append _ _, fun other hPrefix hOther => ?_⟩
  refine Nat.le_of_not_lt fun hLonger => ?_
  obtain ⟨behind, rfl⟩ :=
    List.prefix_of_prefix_length_le (List.prefix_append taken rest) hPrefix (Nat.le_of_lt hLonger)
  have hBehind : behind <+: rest := (List.prefix_append_right_inj taken).1 hPrefix
  obtain ⟨-, rfl⟩ := Prod.mk.inj (Option.some.inj ((hWhole _ hOther).unique (hEnds _ hBehind)))
  simp at hLonger

section Numbers

/-- Whether a text is written like a number, with or without a sign. -/
def isNumber (text : List Char) : Bool := (Numeral.read? text).isSome

/-- The texts of numbers are the spelled ones. -/
theorem isNumber_iff : isNumber text = true ↔ ∃ spelling : Spelling, text = spelling.text := by
  rw [isNumber, Option.isSome_iff_exists]
  constructor
  · rintro ⟨n, hRead⟩
    obtain ⟨spelling, hText, -⟩ := Numeral.exists_spelling hRead
    exact ⟨spelling, hText⟩
  · rintro ⟨spelling, rfl⟩
    exact ⟨spelling.numeral, Numeral.read?_text spelling⟩

/-- The longest number that a text begins with. -/
def longestNumber? : List Char → Option (List Char) := longest? isNumber

theorem Spelling.EndsAt.of_isPrefix {spelling : Spelling} (h : spelling.EndsAt rest)
    (hPrefix : text <+: rest) : spelling.EndsAt text :=
  ⟨h.stopsAt_nameChar.of_isPrefix hPrefix,
    fun hFraction hExponent => (h.stopsAt_point hFraction hExponent).of_isPrefix hPrefix⟩

private theorem Spelling.endsAt_nil (spelling : Spelling) : spelling.EndsAt [] :=
  ⟨trivial, fun _ _ => trivial⟩

/-- Digits with a point behind them are a number too. -/
theorem Spelling.exists_point {spelling : Spelling} (hFraction : spelling.fraction = none)
    (hExponent : spelling.exponent = none) :
    ∃ other : Spelling, other.text = spelling.text ++ ['.'] ∧ other.fraction = some [] := by
  obtain ⟨sign, whole, fraction, exponent, hWhole, hDigits, hDigit⟩ := spelling
  obtain rfl : fraction = none := hFraction
  obtain rfl : exponent = none := hExponent
  refine ⟨⟨sign, whole, some [], none, hWhole, nofun, ?_⟩, ?_, rfl⟩
  · simpa using hDigit
  · simp [Spelling.text, fractionText, exponentText]

/-- The longest number does not lack a point that follows it. -/
theorem stopsAt_point_of_isLongest {spelling : Spelling}
    (h : IsLongest isNumber (spelling.text ++ rest) spelling.text)
    (hFraction : spelling.fraction = none) (hExponent : spelling.exponent = none) :
    StopsAt (· = '.') rest := by
  cases rest with
  | nil => trivial
  | cons c rest =>
    refine decide_eq_false ?_
    rintro rfl
    obtain ⟨other, hOther, -⟩ := Spelling.exists_point hFraction hExponent
    have hPrefix : spelling.text ++ ['.'] <+: spelling.text ++ '.' :: rest :=
      (List.prefix_append_right_inj _).2 (List.prefix_append ['.'] rest)
    have hLe := h.length_le _ hPrefix (isNumber_iff.2 ⟨other, hOther.symm⟩)
    rw [List.length_append, List.length_singleton] at hLe
    exact absurd hLe (Nat.not_succ_le_self _)

/-- The rule of numbers takes the longest number, unless it goes on like a name. -/
theorem takes_number_iff :
    filterGrammar.Takes length (.rule .number) text taken rest ↔
      longestNumber? text = some taken ∧ text = taken ++ rest ∧ StopsAt isNameChar rest := by
  rw [longestNumber?, longest?_eq_some]
  constructor
  · intro h
    obtain rfl := h.text_eq
    obtain ⟨spelling, rfl, hEnds⟩ := exists_spelling_of_takes h
    have hLongest := isLongest_of_takes length (fun other hOther => ?_)
      (isNumber_iff.2 ⟨spelling, rfl⟩) fun behind hBehind =>
        takes_spelling spelling (hEnds.of_isPrefix hBehind)
    · exact ⟨hLongest, rfl, hEnds.stopsAt_nameChar⟩
    · obtain ⟨whole, rfl⟩ := isNumber_iff.1 hOther
      simpa using takes_spelling whole whole.endsAt_nil
  · rintro ⟨hLongest, rfl, hStops⟩
    obtain ⟨spelling, rfl⟩ := isNumber_iff.1 hLongest.satisfies
    exact takes_spelling spelling ⟨hStops, stopsAt_point_of_isLongest hLongest⟩

end Numbers

section Names

structure IsNameWord (word : List Char) : Prop where
  ne_nil : word ≠ []
  all_nameChar : ∀ c ∈ word, isNameChar c = true

/-- Whether a text is words of characters of names with single dots between them. -/
def isDotted (text : List Char) : Bool :=
  (text.splitOn '.').all fun word => !word.isEmpty && word.all isNameChar

def furtherWords (words : List (List Char)) : List Char := words.flatMap ('.' :: ·)

theorem intercalate_dot (word : List Char) (words : List (List Char)) :
    ['.'].intercalate (word :: words) = word ++ furtherWords words := by
  induction words generalizing word with
  | nil => simp [furtherWords]
  | cons next words ih =>
    rw [List.intercalate_cons_cons, ih]
    simp [furtherWords]

/-- Dotted texts are words with dots between them. -/
theorem isDotted_iff :
    isDotted text = true ↔ ∃ word words, (∀ other ∈ word :: words, IsNameWord other) ∧
      text = word ++ furtherWords words := by
  have hWord (word : List Char) : (!word.isEmpty && word.all isNameChar) = true ↔
      IsNameWord word := by
    rw [Bool.and_eq_true, Bool.not_eq_true', List.isEmpty_eq_false_iff, List.all_eq_true]
    exact ⟨fun h => ⟨h.1, h.2⟩, fun h => ⟨h.1, h.2⟩⟩
  simp only [isDotted, List.all_eq_true, hWord]
  constructor
  · intro h
    obtain ⟨word, words, hWords⟩ := List.exists_cons_of_ne_nil (List.splitOn_ne_nil '.' text)
    refine ⟨word, words, hWords ▸ h, ?_⟩
    rw [← intercalate_dot, ← hWords, List.intercalate_splitOn]
  · rintro ⟨word, words, hWords, rfl⟩
    have hDots : ∀ other ∈ word :: words, '.' ∉ other := by
      intro other hOther hDot
      have hChar := (hWords other hOther).all_nameChar '.' hDot
      cases hChar
    rwa [← intercalate_dot, List.splitOn_intercalate '.' hDots (List.cons_ne_nil _ _)]

/-- Words of characters of names with single dots between them. -/
private def dottedWords : Expr Rule :=
  .seq (.many1 (.rule .nameChar)) (.many (.seq (.literal ".") (.many1 (.rule .nameChar))))

/-- Whether dotted words end in front of a text. -/
structure EndsName (rest : List Char) : Prop where
  stopsAt_nameChar : StopsAt isNameChar rest
  stopsAt_word : ∀ {behind}, rest = '.' :: behind → StopsAt isNameChar behind

private theorem endsName_nil : EndsName [] := ⟨trivial, nofun⟩

private theorem EndsName.of_isPrefix (h : EndsName rest) (hPrefix : text <+: rest) :
    EndsName text := by
  refine ⟨h.stopsAt_nameChar.of_isPrefix hPrefix, fun hText => ?_⟩
  subst hText
  obtain ⟨behind, rfl⟩ := hPrefix
  exact (h.stopsAt_word rfl).of_isPrefix (List.prefix_append _ _)

theorem takes_nameWord :
    filterGrammar.Takes length (.many1 (.rule .nameChar)) text taken rest ↔
      taken = text.takeWhile isNameChar ∧ rest = text.dropWhile isNameChar ∧ taken ≠ [] :=
  takes_many1_class (takes_rule.trans takes_oneOf) (fails_rule.trans fails_oneOf)

private theorem IsNameWord.takes (h : IsNameWord taken) (hRest : StopsAt isNameChar rest) :
    filterGrammar.Takes length (.many1 (.rule .nameChar)) (taken ++ rest) taken rest :=
  takes_nameWord.2 ⟨(hRest.takeWhile_append h.all_nameChar).symm,
    (hRest.dropWhile_append h.all_nameChar).symm, h.ne_nil⟩

private theorem exists_furtherWords_of_takes (hStops : StopsAt isNameChar text)
    (h : filterGrammar.Takes length (.many (.seq (.literal ".") (.many1 (.rule .nameChar))))
      text taken rest) :
    ∃ words, (∀ word ∈ words, IsNameWord word) ∧ taken = furtherWords words ∧ EndsName rest := by
  induction h using Takes.many_induction with
  | last _ hEnd =>
    refine ⟨[], nofun, rfl, hStops, fun {behind} hRest => ?_⟩
    subst hRest
    rcases fails_seq.1 hEnd with hDot | ⟨_, _, hDot, hWord⟩
    · cases (fails_character '.' rfl).1 hDot
    · obtain ⟨-, hBehind⟩ := (takes_character '.' rfl).1 hDot
      obtain rfl := (List.cons.inj hBehind).2
      rcases fails_seq.1 hWord with hWord | ⟨_, _, -, hMany⟩
      · exact fails_class.1 (fails_rule.1 hWord)
      · cases hMany
  | more _ hNext _ ih =>
    obtain ⟨_, behind, _, hDot, hWord, rfl⟩ := takes_seq.1 hNext
    obtain ⟨rfl, rfl⟩ := (takes_character '.' rfl).1 hDot
    obtain ⟨rfl, rfl, hNonempty⟩ := takes_nameWord.1 hWord
    obtain ⟨words, hWords, rfl, hRest⟩ := ih (stopsAt_dropWhile behind)
    refine ⟨behind.takeWhile isNameChar :: words, ?_, by simp [furtherWords], hRest⟩
    exact List.forall_mem_cons.2 ⟨⟨hNonempty, fun _ => of_mem_takeWhile⟩, hWords⟩

private theorem takes_furtherWords (hRest : EndsName rest) {words : List (List Char)}
    (hWords : ∀ word ∈ words, IsNameWord word) :
    filterGrammar.Takes length (.many (.seq (.literal ".") (.many1 (.rule .nameChar))))
      (furtherWords words ++ rest) (furtherWords words) rest := by
  induction words with
  | nil =>
    refine takes_many.2 (.inl ⟨?_, rfl, rfl⟩)
    change filterGrammar.Fails length _ rest
    cases rest with
    | nil => exact fails_seq.2 (.inl ((fails_character '.' rfl).2 trivial))
    | cons c rest =>
      by_cases hDot : c = '.'
      · subst hDot
        refine fails_seq.2 (.inr ⟨['.'], rest, (takes_character '.' rfl).2 ⟨rfl, rfl⟩, ?_⟩)
        exact fails_seq.2 (.inl (fails_rule.2 (fails_class.2 (hRest.stopsAt_word rfl))))
      · exact fails_seq.2 (.inl ((fails_character '.' rfl).2 (decide_eq_false hDot)))
  | cons word words ih =>
    obtain ⟨hWord, hOthers⟩ := List.forall_mem_cons.1 hWords
    have hStops : StopsAt isNameChar (furtherWords words ++ rest) := by
      cases words with
      | nil => exact hRest.stopsAt_nameChar
      | cons => rfl
    have hSplit : furtherWords (word :: words) ++ rest =
        '.' :: (word ++ (furtherWords words ++ rest)) := by simp [furtherWords]
    rw [hSplit]
    exact takes_many.2 (.inr ⟨'.' :: word, _, furtherWords words,
      takes_seq.2 ⟨['.'], _, word, (takes_character '.' rfl).2 ⟨rfl, rfl⟩, hWord.takes hStops, rfl⟩,
      ih hOthers, rfl⟩)

private theorem dotted_of_takes (h : filterGrammar.Takes length dottedWords text taken rest) :
    isDotted taken = true ∧ EndsName rest := by
  obtain ⟨_, _, _, hWord, hOthers, rfl⟩ := takes_seq.1 h
  obtain ⟨rfl, rfl, hNonempty⟩ := takes_nameWord.1 hWord
  obtain ⟨words, hWords, rfl, hRest⟩ :=
    exists_furtherWords_of_takes (stopsAt_dropWhile text) hOthers
  exact ⟨isDotted_iff.2 ⟨_, words,
    List.forall_mem_cons.2 ⟨⟨hNonempty, fun _ => of_mem_takeWhile⟩, hWords⟩, rfl⟩, hRest⟩

private theorem takes_dottedWords (h : isDotted taken = true) (hRest : EndsName rest) :
    filterGrammar.Takes length dottedWords (taken ++ rest) taken rest := by
  obtain ⟨word, words, hWords, rfl⟩ := isDotted_iff.1 h
  obtain ⟨hWord, hOthers⟩ := List.forall_mem_cons.1 hWords
  have hStops : StopsAt isNameChar (furtherWords words ++ rest) := by
    cases words with
    | nil => exact hRest.stopsAt_nameChar
    | cons => rfl
  rw [List.append_assoc]
  exact takes_seq.2 ⟨word, _, _, hWord.takes hStops, takes_furtherWords hRest hOthers, rfl⟩

/-- The rule of names takes dotted words where neither a reserved word nor a number stands. -/
theorem takes_name_iff :
    filterGrammar.Takes length (.rule .name) text taken rest ↔
      filterGrammar.Fails length (.rule .reserved) text ∧
        filterGrammar.Fails length (.rule .number) text ∧
        text = taken ++ rest ∧ isDotted taken = true ∧ EndsName rest := by
  rw [takes_rule]
  constructor
  · intro h
    obtain ⟨_, text, _, hReserved, hOthers, rfl⟩ := takes_seq.1 h
    obtain ⟨_, text, taken, hNumber, hWords, rfl⟩ := takes_seq.1 hOthers
    obtain ⟨hNotReserved, rfl, rfl⟩ := takes_unless.1 hReserved
    obtain ⟨hNotNumber, rfl, rfl⟩ := takes_unless.1 hNumber
    exact ⟨hNotReserved, hNotNumber, Takes.text_eq hWords, dotted_of_takes hWords⟩
  · rintro ⟨hReserved, hNumber, rfl, hDotted, hRest⟩
    exact takes_seq.2 ⟨[], _, taken, takes_unless.2 ⟨hReserved, rfl, rfl⟩, takes_seq.2 ⟨[], _, taken,
      takes_unless.2 ⟨hNumber, rfl, rfl⟩, takes_dottedWords hDotted hRest, rfl⟩, rfl⟩

/-- What is read as a name is dotted and ends where names end. -/
theorem dotted_of_takes_name (h : filterGrammar.Takes length (.rule .name) text taken rest) :
    isDotted taken = true ∧ EndsName rest :=
  (takes_name_iff.1 h).2.2.2

/-- The rule of names takes the longest dotted text. -/
theorem longest_of_takes_name (h : filterGrammar.Takes length (.rule .name) text taken rest) :
    longest? isDotted text = some taken := by
  obtain ⟨hDotted, hRest⟩ := dotted_of_takes_name h
  obtain rfl := h.text_eq
  refine longest?_eq_some.2 (isLongest_of_takes length (fun other hOther => ?_) hDotted
    fun behind hBehind => takes_dottedWords hDotted (hRest.of_isPrefix hBehind))
  simpa using takes_dottedWords hOther endsName_nil

end Names

section Words

/-- The words that end no name and stand before no dot of it. -/
def reservedWords : List String := ["and", "or", "not", "in", "is"]

/-- The run of characters of names that a text begins with, in lower case. -/
def firstWord (text : List Char) : List Char := (text.takeWhile isNameChar).map Char.toLower

theorem firstWord_eq_nil (h : StopsAt isNameChar text) : firstWord text = [] := by
  rw [firstWord, h.takeWhile_eq_nil, List.map_nil]

/-- Whether a word is in lower case and may stand in a name. -/
def isKeyword (word : String) : Bool := word.toList.all fun c => isNameChar c && c.toLower = c

/-- Case does not matter to the characters of names. -/
theorem isNameChar_toLower (c : Char) : isNameChar c.toLower = isNameChar c := by
  have hLetter : ∀ c, c.isAlpha = true → isNameChar c = true := by
    intro c hc
    simp [isNameChar, Char.isAlphanum, hc]
  exact class_toLower hLetter c

theorem takeAll?_sameLetter {word : List Char} :
    takeAll? (word.map sameLetter) text = some (taken, rest) ↔
      taken.map Char.toLower = word.map Char.toLower ∧ text = taken ++ rest := by
  induction word generalizing text taken with
  | nil =>
    simp only [List.map_nil, takeAll?, Option.some.injEq, Prod.mk.injEq, List.map_eq_nil_iff]
    constructor
    · rintro ⟨rfl, rfl⟩
      exact ⟨rfl, rfl⟩
    · rintro ⟨rfl, rfl⟩
      exact ⟨rfl, rfl⟩
  | cons a word ih =>
    cases text with
    | nil =>
      simp only [List.map_cons, takeAll?, reduceCtorEq, false_iff, not_and]
      rintro hLower hText
      obtain ⟨rfl, -⟩ := List.append_eq_nil_iff.1 hText.symm
      cases hLower
    | cons c text =>
      rw [List.map_cons, takeAll?, List.map_cons]
      constructor
      · intro h
        split at h
        · next hSame =>
          obtain ⟨⟨others, stop⟩, hOthers, hEq⟩ := Option.map_eq_some_iff.1 h
          cases hEq
          obtain ⟨hLower, rfl⟩ := ih.1 hOthers
          have hLetter : a.toLower = c.toLower := of_decide_eq_true hSame
          exact ⟨by rw [List.map_cons, hLower, hLetter], rfl⟩
        · cases h
      · rintro ⟨hLower, hText⟩
        cases taken with
        | nil => cases hLower
        | cons d taken =>
          obtain ⟨rfl, rfl⟩ := List.cons.inj hText
          obtain ⟨hLetter, hOthers⟩ := List.cons.inj hLower
          have hSame : sameLetter a c = true := decide_eq_true hLetter.symm
          have hRest := ih.2 ⟨hOthers, rfl⟩
          change (if sameLetter a c = true then
            (takeAll? (word.map sameLetter) (taken ++ rest)).map _ else none) = _
          rw [if_pos hSame, hRest]
          rfl

variable {word : String}

/-- A word is taken in any case. -/
theorem takes_word_iff (hWord : isKeyword word = true) :
    filterGrammar.Takes length (.word word) text taken rest ↔
      taken.map Char.toLower = word.toList ∧ text = taken ++ rest := by
  have hLower : word.toList.map Char.toLower = word.toList := by
    rw [List.map_congr_left fun c hc => ?_, List.map_id']
    have hChar := List.all_eq_true.1 hWord c hc
    rw [Bool.and_eq_true, decide_eq_true_eq] at hChar
    exact hChar.2
  rw [takes_word, takeAll?_sameLetter, hLower]

/-- A word takes characters of names. -/
theorem isNameChar_of_takes_word (hWord : isKeyword word = true)
    (h : filterGrammar.Takes length (.word word) text taken rest) :
    ∀ c ∈ taken, isNameChar c = true := by
  intro c hc
  have hMem : c.toLower ∈ word.toList :=
    ((takes_word_iff hWord).1 h).1 ▸ List.mem_map_of_mem hc
  have hChar := List.all_eq_true.1 hWord _ hMem
  rw [Bool.and_eq_true, isNameChar_toLower] at hChar
  exact hChar.1

/-- A word in front of a text that ends it is the first word. -/
theorem takes_word_stopsAt (hWord : isKeyword word = true) :
    filterGrammar.Takes length (.word word) text taken rest ∧ StopsAt isNameChar rest ↔
      firstWord text = word.toList ∧ taken = text.takeWhile isNameChar ∧
        rest = text.dropWhile isNameChar := by
  constructor
  · rintro ⟨hTakes, hStops⟩
    have hChars := isNameChar_of_takes_word hWord hTakes
    obtain ⟨hLower, rfl⟩ := (takes_word_iff hWord).1 hTakes
    rw [firstWord, hStops.takeWhile_append hChars, hStops.dropWhile_append hChars]
    exact ⟨hLower, rfl, rfl⟩
  · rintro ⟨hFirst, rfl, rfl⟩
    exact ⟨(takes_word_iff hWord).2 ⟨hFirst, List.takeWhile_append_dropWhile.symm⟩,
      stopsAt_dropWhile text⟩

/-- A whole word is a word that no further character of a name follows. -/
theorem takes_wholeWord_iff_stopsAt :
    filterGrammar.Takes length (Rule.wholeWord word) text taken rest ↔
      filterGrammar.Takes length (.word word) text taken rest ∧ StopsAt isNameChar rest := by
  rw [Rule.wholeWord, takes_seq]
  constructor
  · rintro ⟨_, _, _, hTakes, hEnd, rfl⟩
    obtain ⟨hStops, rfl, rfl⟩ := takes_unless_nameChar.1 hEnd
    rw [List.append_nil]
    exact ⟨hTakes, hStops⟩
  · rintro ⟨hTakes, hStops⟩
    exact ⟨taken, rest, [], hTakes, takes_unless_nameChar.2 ⟨hStops, rfl, rfl⟩,
      (List.append_nil taken).symm⟩

/-- A whole word is taken where it is the first word. -/
theorem takes_wholeWord_iff (hWord : isKeyword word = true) :
    filterGrammar.Takes length (Rule.wholeWord word) text taken rest ↔
      firstWord text = word.toList ∧ taken = text.takeWhile isNameChar ∧
        rest = text.dropWhile isNameChar :=
  takes_wholeWord_iff_stopsAt.trans (takes_word_stopsAt hWord)

private theorem exists_mem_of_takes_firstOf {first : Expr Rule} {others : List (Expr Rule)}
    (h : filterGrammar.Takes length (Rule.firstOf first others) text taken rest) :
    ∃ expr ∈ first :: others, filterGrammar.Takes length expr text taken rest := by
  induction others generalizing first with
  | nil => exact ⟨first, List.mem_cons_self, h⟩
  | cons second others ih =>
    rcases takes_choice.1 h with h | ⟨-, h⟩
    · exact ⟨first, List.mem_cons_self, h⟩
    · obtain ⟨expr, hMem, hTakes⟩ := ih h
      exact ⟨expr, List.mem_cons_of_mem first hMem, hTakes⟩

private theorem fails_of_fails_firstOf {first expr : Expr Rule} {others : List (Expr Rule)}
    (h : filterGrammar.Fails length (Rule.firstOf first others) text)
    (hMem : expr ∈ first :: others) :
    filterGrammar.Fails length expr text := by
  induction others generalizing first with
  | nil => rwa [List.mem_singleton.1 hMem]
  | cons second others ih =>
    obtain ⟨hFirst, hOthers⟩ := fails_choice.1 h
    rcases List.mem_cons.1 hMem with rfl | hMem
    · exact hFirst
    · exact ih hOthers hMem

/-- No reserved word begins another one, so the rule fails where no first word is reserved. -/
theorem firstWord_of_fails_reserved (h : filterGrammar.Fails length (.rule .reserved) text) :
    ∀ word ∈ reservedWords, firstWord text ≠ word.toList := by
  intro word hMem hFirst
  have hKeywords : ∀ word ∈ reservedWords, isKeyword word = true := by decide
  have hNested : ∀ word ∈ reservedWords, ∀ other ∈ reservedWords,
      other.toList <+: word.toList → other = word := by decide
  obtain ⟨hTakes, hStops⟩ := (@takes_word_stopsAt length _ _ _ _ (hKeywords word hMem)).2
    ⟨hFirst, rfl, rfl⟩
  rcases fails_seq.1 (fails_rule.1 h) with hNone | ⟨before, middle, hOther, hEnd⟩
  · have hExpr : Expr.word word ∈ reservedWords.map (Expr.word (R := Rule)) :=
      List.mem_map_of_mem hMem
    cases hTakes.unique (fails_of_fails_firstOf hNone hExpr)
  · obtain ⟨expr, hExpr, hOther⟩ := exists_mem_of_takes_firstOf hOther
    obtain ⟨other, hOtherMem, rfl⟩ : ∃ other ∈ reservedWords, Expr.word other = expr :=
      List.mem_map.1 hExpr
    obtain ⟨hWordLower, hWordText⟩ := (takes_word_iff (hKeywords word hMem)).1 hTakes
    obtain ⟨hOtherLower, hOtherText⟩ := (takes_word_iff (hKeywords other hOtherMem)).1 hOther
    have hWordPrefix : word.toList <+: text.map Char.toLower := by
      have hWordPrefix : text.takeWhile isNameChar <+: text := List.takeWhile_prefix _
      rw [← hWordLower]
      exact hWordPrefix.map _
    have hOtherPrefix : other.toList <+: text.map Char.toLower := by
      rw [← hOtherLower, hOtherText, List.map_append]
      exact List.prefix_append _ _
    obtain rfl : other = word := by
      rcases List.prefix_or_prefix_of_prefix hOtherPrefix hWordPrefix with hPrefix | hPrefix
      · exact hNested word hMem other hOtherMem hPrefix
      · exact (hNested other hOtherMem word hMem hPrefix).symm
    obtain ⟨-, rfl⟩ := Prod.mk.inj (Option.some.inj (hTakes.unique hOther))
    have hStop : filterGrammar.Takes length (.unless (.rule .nameChar)) _ [] _ :=
      takes_unless_nameChar.2 ⟨hStops, rfl, rfl⟩
    cases hStop.unique hEnd

/-- The rule takes a first word that is reserved. -/
theorem firstWord_of_takes_reserved
    (h : filterGrammar.Takes length (.rule .reserved) text taken rest) :
    ∃ word ∈ reservedWords, firstWord text = word.toList := by
  have hKeywords : ∀ word ∈ reservedWords, isKeyword word = true := by decide
  obtain ⟨_, _, _, hWord, hEnd, -⟩ := takes_seq.1 (takes_rule.1 h)
  obtain ⟨hStops, -, rfl⟩ := takes_unless_nameChar.1 hEnd
  obtain ⟨expr, hExpr, hTakes⟩ := exists_mem_of_takes_firstOf hWord
  obtain ⟨word, hMem, rfl⟩ : ∃ word ∈ reservedWords, Expr.word word = expr := List.mem_map.1 hExpr
  exact ⟨word, hMem, ((takes_word_stopsAt (hKeywords word hMem)).1 ⟨hTakes, hStops⟩).1⟩

def phrase : String → List String → Expr Rule
  | word, [] => Rule.wholeWord word
  | word, next :: words => .seq (.word word) (.seq (.many1 (.rule .gap)) (phrase next words))

/-- A phrase takes a character if its words do. -/
theorem phrase_consumes {word : String} {words : List String}
    (hWords : (word :: words).all (!·.toList.isEmpty) = true) :
    (phrase word words).consumes Rule.consuming = true := by
  rw [List.all_cons, Bool.and_eq_true] at hWords
  cases words with
  | nil => exact Bool.or_eq_true_iff.2 (.inl hWords.1)
  | cons => exact Bool.or_eq_true_iff.2 (.inl hWords.1)

/-- A gap is taken as a whole. -/
theorem takes_gaps_iff :
    filterGrammar.Takes length (.many1 (.rule .gap)) text taken rest ↔
      taken = text.takeWhile isGap ∧ rest = text.dropWhile isGap ∧ taken ≠ [] :=
  takes_many1_class (takes_rule.trans takes_oneOf) (fails_rule.trans fails_oneOf)

end Words

end RowFilter
