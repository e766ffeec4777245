import RowFilter.Proofs.Grammar.Simulation
import RowFilter.Proofs.Syntax.Depth
import RowFilter.Proofs.Syntax.Lexemes
import RowFilter.Proofs.Syntax.Relocation

/-! The layout of a text. Gaps outside quoted texts may be any other gaps, and
there may be any or none at the ends. Tokens are read alike in texts that differ
in this only, so the texts spell the same filter or none. -/

namespace RowFilter

open Grammar Text

/-- Whether a text goes on with the end of a quoted text. -/
def EndsQuoted (quote : Quote) (text : List Char) : Prop :=
  ∃ body rest, IsQuotable quote.char body ∧ text = body ++ quote.char :: rest

/-- Texts that differ in the gaps outside quoted texts and at the end. -/
inductive Respaced : List Char → List Char → Prop where
  /-- There may be a gap at the end of either text or of none. -/
  | ends {first second : List Char} (hFirst : ∀ c ∈ first, isGap c = true)
      (hSecond : ∀ c ∈ second, isGap c = true) : Respaced first second
  /-- Elsewhere there is a gap in both texts. -/
  | gap {first second text other : List Char} (hFirst : ∀ c ∈ first, isGap c = true)
      (hSecond : ∀ c ∈ second, isGap c = true) (hFirstNonempty : first ≠ [])
      (hSecondNonempty : second ≠ []) (h : Respaced text other) :
      Respaced (first ++ text) (second ++ other)
  /-- A quote of which neither text has the end is a character like any other. -/
  | char {c : Char} {text other : List Char} (hGap : isGap c = false)
      (hText : ∀ quote : Quote, c = quote.char → ¬EndsQuoted quote text)
      (hOther : ∀ quote : Quote, c = quote.char → ¬EndsQuoted quote other)
      (h : Respaced text other) : Respaced (c :: text) (c :: other)
  /-- A quoted text is the same in both. -/
  | quoted {quote : Quote} {body text other : List Char} (hBody : IsQuotable quote.char body)
      (h : Respaced text other) :
      Respaced (quote.char :: (body ++ quote.char :: text))
        (quote.char :: (body ++ quote.char :: other))

theorem isGap_quote (quote : Quote) : isGap quote.char = false := by
  cases quote <;> rfl

/-- A character that is neither part of a gap nor a quote. -/
def isPlain (c : Char) : Bool := !isGap c && c ≠ '\'' && c ≠ '"'

/-- Plain characters are those that are neither gaps nor quotes. -/
theorem isPlain_iff {c : Char} :
    isPlain c = true ↔ isGap c = false ∧ ∀ quote : Quote, c ≠ quote.char := by
  simp only [isPlain, Bool.and_eq_true, Bool.not_eq_true', decide_eq_true_eq]
  constructor
  · rintro ⟨⟨hGap, hSingle⟩, hDouble⟩
    refine ⟨hGap, fun quote => ?_⟩
    cases quote
    · exact hSingle
    · exact hDouble
  · rintro ⟨hGap, hQuote⟩
    exact ⟨⟨hGap, hQuote .single⟩, hQuote .double⟩

/-- A quoted text ends at one place only. -/
theorem IsQuotable.unique {quote : Quote} {body other rest behind : List Char}
    (h : IsQuotable quote.char body) (hOther : IsQuotable quote.char other)
    (hText : body ++ quote.char :: rest = other ++ quote.char :: behind) :
    body = other ∧ rest = behind := by
  have hBody : filterGrammar.Takes 0 (.rule quote.bodyRule) _ body (quote.char :: rest) :=
    Quote.takes_bodyRule h
  have hOtherBody : filterGrammar.Takes 0 (.rule quote.bodyRule) _ other (quote.char :: behind) :=
    Quote.takes_bodyRule hOther
  rw [hText] at hBody
  obtain ⟨hPieces, hRest⟩ := Prod.mk.inj (Option.some.inj (hBody.unique hOtherBody))
  have hTaken := congrArg Piece.textOf hPieces
  rw [Piece.textOf_chars, Piece.textOf_chars] at hTaken
  exact ⟨hTaken, (List.cons.inj hRest).2⟩

private theorem dropWhile_of_all {p : Char → Bool} {text : List Char}
    (h : ∀ c ∈ text, p c = true) : text.dropWhile p = [] := by
  have hDrop := (stopsAt_nil (p := p)).dropWhile_append h
  rwa [List.append_nil] at hDrop

namespace Respaced

variable {text other rest taken body : List Char} {c : Char}

/-- Which of two layouts comes first does not matter. -/
theorem symm (h : Respaced text other) : Respaced other text := by
  induction h with
  | ends hFirst hSecond => exact .ends hSecond hFirst
  | gap hFirst hSecond hFirstNonempty hSecondNonempty _ ih =>
    exact .gap hSecond hFirst hSecondNonempty hFirstNonempty ih
  | char hGap hText hOther _ ih => exact .char hGap hOther hText ih
  | quoted hBody _ ih => exact .quoted hBody ih

/-- What stands behind the gaps at the beginning. -/
theorem dropWhile (h : Respaced text other) :
    Respaced (text.dropWhile isGap) (other.dropWhile isGap) := by
  induction h with
  | ends hFirst hSecond =>
    rw [dropWhile_of_all hFirst, dropWhile_of_all hSecond]
    exact .ends nofun nofun
  | gap hFirst hSecond _ _ _ ih =>
    rwa [List.dropWhile_append_of_pos hFirst, List.dropWhile_append_of_pos hSecond]
  | char hGap hText hOther h =>
    rw [List.dropWhile_cons_of_neg (by simp [hGap]), List.dropWhile_cons_of_neg (by simp [hGap])]
    exact .char hGap hText hOther h
  | @quoted quote body text other hBody h =>
    have hGap := isGap_quote quote
    rw [List.dropWhile_cons_of_neg (by simp [hGap]), List.dropWhile_cons_of_neg (by simp [hGap])]
    exact .quoted hBody h

/-- A gap in front of something stands in both texts. -/
theorem takeWhile_ne_nil (h : Respaced text other) (hGap : text.takeWhile isGap ≠ [])
    (hRest : text.dropWhile isGap ≠ []) : other.takeWhile isGap ≠ [] := by
  cases h with
  | ends hFirst => exact absurd (dropWhile_of_all hFirst) hRest
  | @gap first second text other hFirst hSecond _ hNonempty =>
    rw [List.takeWhile_append_of_pos hSecond]
    exact fun hNil => hNonempty (List.append_eq_nil_iff.1 hNil).1
  | char hChar => exact absurd (List.takeWhile_cons_of_neg (by simp [hChar])) hGap
  | @quoted quote =>
    exact absurd (List.takeWhile_cons_of_neg (by simp [isGap_quote quote])) hGap

/-- A text without anything but gaps is like texts of gaps only. -/
theorem dropWhile_eq_nil (h : Respaced text other) (hText : text.dropWhile isGap = []) :
    other.dropWhile isGap = [] := by
  have hDrop := h.dropWhile
  rw [hText] at hDrop
  have hStops : StopsAt isGap (other.dropWhile isGap) := stopsAt_dropWhile other
  generalize hNil : ([] : List Char) = nothing at hDrop
  generalize other.dropWhile isGap = behind at hDrop hStops ⊢
  cases hDrop with
  | ends _ hSecond => exact hStops.dropWhile_eq_self.symm.trans ((dropWhile_of_all hSecond).trans hNil)
  | gap _ _ hNonempty => exact absurd (List.append_eq_nil_iff.1 hNil.symm).1 hNonempty
  | char | quoted => cases hNil

/-- What does not begin with a class without gaps is like texts that do not either. -/
theorem stopsAt {p : Char → Bool} (h : Respaced text other)
    (hClass : ∀ c, isGap c = true → p c = false) (hText : StopsAt p text) : StopsAt p other := by
  have hGaps {gaps : List Char} (hAll : ∀ c ∈ gaps, isGap c = true) : StopsAt p gaps := by
    cases gaps with
    | nil => trivial
    | cons c gaps => exact hClass c (hAll c List.mem_cons_self)
  cases h with
  | ends _ hSecond => exact hGaps hSecond
  | @gap _ second _ _ _ hSecond _ hNonempty =>
    have hStops := hGaps hSecond
    cases second with
    | nil => exact absurd rfl hNonempty
    | cons => exact hStops
  | char | quoted => exact hText

private theorem exists_cons (h : Respaced (c :: text) other) (hGap : isGap c = false) :
    (∃ behind, other = c :: behind ∧ Respaced text behind ∧
      ∀ quote : Quote, c = quote.char → ¬EndsQuoted quote text) ∨
    ∃ (quote : Quote) (body rest behind : List Char), c = quote.char ∧
      IsQuotable quote.char body ∧ text = body ++ quote.char :: rest ∧
      other = quote.char :: (body ++ quote.char :: behind) ∧ Respaced rest behind := by
  generalize hText : c :: text = whole at h
  cases h with
  | ends hFirst =>
    subst hText
    rw [hFirst c List.mem_cons_self] at hGap
    cases hGap
  | @gap first _ _ _ hFirst _ hNonempty =>
    cases first with
    | nil => exact absurd rfl hNonempty
    | cons d first =>
      obtain ⟨rfl, -⟩ := List.cons.inj hText
      rw [hFirst c List.mem_cons_self] at hGap
      cases hGap
  | char _ hNone _ h =>
    obtain ⟨rfl, rfl⟩ := List.cons.inj hText
    exact .inl ⟨_, rfl, h, hNone⟩
  | quoted hBody h =>
    obtain ⟨rfl, rfl⟩ := List.cons.inj hText
    exact .inr ⟨_, _, _, _, rfl, hBody, rfl, rfl, h⟩

/-- Plain characters are the same in both texts. -/
theorem exists_append (h : Respaced (taken ++ rest) other)
    (hTaken : ∀ c ∈ taken, isPlain c = true) :
    ∃ behind, other = taken ++ behind ∧ Respaced rest behind := by
  induction taken generalizing other with
  | nil => exact ⟨other, rfl, h⟩
  | cons c taken ih =>
    obtain ⟨hChar, hTaken⟩ := List.forall_mem_cons.1 hTaken
    obtain ⟨hGap, hQuote⟩ := isPlain_iff.1 hChar
    rcases exists_cons h hGap with ⟨_, rfl, h, -⟩ | ⟨quote, _, _, _, hSame, -⟩
    · obtain ⟨behind, rfl, hBehind⟩ := ih h hTaken
      exact ⟨behind, rfl, hBehind⟩
    · exact absurd hSame (hQuote quote)

/-- So is a quoted text. -/
theorem exists_quoted {quote : Quote} (hBody : IsQuotable quote.char body)
    (h : Respaced (quote.char :: (body ++ quote.char :: rest)) other) :
    ∃ behind, other = quote.char :: (body ++ quote.char :: behind) ∧ Respaced rest behind := by
  rcases exists_cons h (isGap_quote quote) with
    ⟨_, rfl, -, hNone⟩ | ⟨otherQuote, otherBody, _, behind, hQuote, hOtherBody, hText, rfl, h⟩
  · exact absurd ⟨body, rest, hBody, rfl⟩ (hNone quote rfl)
  · obtain rfl : quote = otherQuote := by
      revert hQuote
      cases quote <;> cases otherQuote <;> decide
    obtain ⟨rfl, rfl⟩ := hBody.unique hOtherBody hText
    exact ⟨behind, rfl, h⟩

/-- Plain characters may stand in front of two layouts. -/
theorem append (hTaken : ∀ c ∈ taken, isPlain c = true) (h : Respaced rest other) :
    Respaced (taken ++ rest) (taken ++ other) := by
  induction taken with
  | nil => exact h
  | cons c taken ih =>
    obtain ⟨hChar, hTaken⟩ := List.forall_mem_cons.1 hTaken
    obtain ⟨hGap, hQuote⟩ := isPlain_iff.1 hChar
    exact .char hGap (fun quote hSame => absurd hSame (hQuote quote))
      (fun quote hSame => absurd hSame (hQuote quote)) (ih hTaken)

/-- The plain characters at the beginning, up to the first gap or quote. -/
theorem exists_split (h : Respaced text other) : ∃ before first second,
    text = before ++ first ∧ other = before ++ second ∧ (∀ c ∈ before, isPlain c = true) ∧
      StopsAt isPlain first ∧ StopsAt isPlain second ∧ Respaced first second := by
  have hTaken : ∀ c ∈ text.takeWhile isPlain, isPlain c = true := fun _ => of_mem_takeWhile
  have hText : text = text.takeWhile isPlain ++ text.dropWhile isPlain :=
    List.takeWhile_append_dropWhile.symm
  have hStops : StopsAt isPlain (text.dropWhile isPlain) := stopsAt_dropWhile text
  rw [hText] at h
  obtain ⟨second, rfl, hRest⟩ := h.exists_append hTaken
  have hClass : ∀ c, isGap c = true → isPlain c = false := fun c hGap => by simp [isPlain, hGap]
  exact ⟨_, _, second, hText, rfl, hTaken, hStops, hRest.stopsAt hClass hStops, hRest⟩

end Respaced

section Tokens

/-- What may be read of two texts that differ in their layout. -/
def SameLayout (length other : Nat) (text behind : List Char) : Prop :=
  Respaced text behind ∧ text.length ≤ length ∧ behind.length ≤ other

variable {length other : Nat} {text behind taken rest : List Char} {rule : Rule}
  {pieces : List (Piece Rule)}

/-- What is left behind gaps has the same layout. -/
theorem passesGaps_sameLayout : PassesGaps filterGrammar (SameLayout length other) := by
  rintro text behind ⟨h, hText, hBehind⟩
  exact ⟨h.dropWhile, Nat.le_trans (Mode.length_behindGap_le ..) hText,
    Nat.le_trans (Mode.length_behindGap_le ..) hBehind⟩

/-- What a rule reads of a text it also reads of each text that differs in its layout only. -/
def IsRespaceable (rule : Rule) : Prop :=
  ∀ ⦃length : Nat⦄ (other : Nat) ⦃text behind rest : List Char⦄ ⦃pieces : List (Piece Rule)⦄,
    Respaced text behind →
    filterGrammar.Reads length (.once (.rule rule)) .initial text (some (pieces, rest)) →
    ∃ others stop,
      filterGrammar.Reads other (.once (.rule rule)) .initial behind (some (others, stop)) ∧
        Piece.AllAlike Rule.isSpelled pieces others ∧ Respaced rest stop

/-- A rule fails on both of two texts, since it would read both if it read one. -/
theorem IsRespaceable.simulates (h : IsRespaceable rule) :
    Simulates filterGrammar length other Rule.isSpelled (SameLayout length other)
      (.once (.rule rule)) := by
  rintro text behind outcome ⟨hLayout, hText, hBehind⟩ hReads
  cases outcome with
  | some success =>
    obtain ⟨others, stop, hOthers, hAlike, hRest⟩ := h other hLayout hReads
    exact ⟨_, hOthers, .success hAlike ⟨hRest, Nat.le_trans hReads.length_le hText,
      Nat.le_trans hOthers.length_le hBehind⟩⟩
  | none =>
    obtain ⟨result, hResult⟩ := exists_reads filterGrammar_ranked rule .initial hBehind
    cases result with
    | none => exact ⟨none, hResult, .failure⟩
    | some success =>
      obtain ⟨_, _, hSome, -⟩ := h length hLayout.symm hResult
      cases hReads.unique hSome

private def isGapless (rule : Rule) : Bool :=
  rule ∈ [.name, .nameChar, .reserved, .number, .sign, .digits, .exponent, .comparisonSymbol]

private def stops : List Char := [' ', '\t', '\r', '\n', '\'', '"']

private theorem mem_stops (h : StopsAt isPlain text) : ∀ c ∈ text.head?, c ∈ stops := by
  intro c hc
  cases text with
  | nil => cases hc
  | cons d text =>
    cases hc
    refine Decidable.byContradiction fun hNot => ?_
    have hPlain : isPlain c = true := by simpa [isPlain, isGap, stops, and_assoc] using hNot
    rw [stopsAt_cons, hPlain] at h
    cases h

private theorem rejects_stops {rule : Rule} (h : isGapless rule = true) :
    (filterGrammar.body rule).rejects isGapless stops = true := by
  revert h
  cases rule <;> decide

private theorem isRespaceable_gapless (hKind : rule.kind = .atomic) (hRule : isGapless rule = true) :
    IsRespaceable rule := by
  intro length other text behind rest pieces hLayout hReads
  obtain ⟨taken, hTakes, rfl⟩ := (Reads.rule_atomic hKind rfl).1 hReads
  obtain ⟨before, first, second, rfl, rfl, hPlain, hFirst, hSecond, hRests⟩ := hLayout.exists_split
  obtain ⟨outcome, hBefore⟩ :=
    exists_reads filterGrammar_ranked rule .atomic (Nat.le_refl before.length)
  have hReadsFirst := hBefore.followedBy (fun _ => rejects_stops) (mem_stops hFirst) length hRule
  have hReadsSecond := hBefore.followedBy (fun _ => rejects_stops) (mem_stops hSecond) other hRule
  have hOutcome := hReadsFirst.unique (takes_rule.2 hTakes)
  obtain ⟨⟨parts, middle⟩, rfl, hSame⟩ := Option.map_eq_some_iff.1 hOutcome
  obtain ⟨rfl, rfl⟩ := Prod.mk.inj hSame
  have hMiddle : ∀ c ∈ middle, isPlain c = true := by
    rw [hBefore.text_eq] at hPlain
    exact fun c hc => hPlain c (List.mem_append_right _ hc)
  exact ⟨_, _, (Reads.rule_atomic hKind rfl).2 ⟨taken, takes_rule.1 hReadsSecond, rfl⟩,
    Piece.allAlike_self _, hRests.append hMiddle⟩

private theorem isPlain_of_isNameChar {c : Char} (h : isNameChar c = true) : isPlain c = true := by
  have hNot {d : Char} (hd : isNameChar d = false) : c ≠ d := by
    rintro rfl
    rw [h] at hd
    cases hd
  have hGap : isGap c = false := isGap_eq_false rfl h
  simp [isPlain, hGap, hNot (d := '\'') rfl, hNot (d := '"') rfl]

private theorem isNameChar_eq_false_of_isGap {c : Char} (h : isGap c = true) :
    isNameChar c = false := by
  refine Bool.eq_false_iff.2 fun hName => ?_
  rw [isGap_eq_false rfl hName] at h
  cases h

private theorem exists_word_of_respaced (other : Nat) {word : String}
    (hWord : isKeyword word = true) (hLayout : Respaced text behind)
    (h : filterGrammar.Takes length (.word word) text taken rest) :
    ∃ stop, filterGrammar.Takes other (.word word) behind taken stop ∧ Respaced rest stop := by
  have hChars := isNameChar_of_takes_word hWord h
  obtain ⟨hLower, rfl⟩ := (takes_word_iff hWord).1 h
  obtain ⟨stop, rfl, hRest⟩ :=
    hLayout.exists_append fun c hc => isPlain_of_isNameChar (hChars c hc)
  exact ⟨stop, (takes_word_iff hWord).2 ⟨hLower, rfl⟩, hRest⟩

private theorem exists_phrase_of_respaced (other : Nat) {word : String} {words : List String}
    (hWords : (word :: words).all isKeyword = true)
    (hNonempty : (word :: words).all (!·.toList.isEmpty) = true) (hLayout : Respaced text behind)
    (h : filterGrammar.Takes length (phrase word words) text taken rest) :
    ∃ otherTaken stop, filterGrammar.Takes other (phrase word words) behind otherTaken stop ∧
      Respaced rest stop := by
  -- The induction is on the words. The gaps between them may be any.
  induction words generalizing word text behind taken with
  | nil =>
    rw [List.all_cons, Bool.and_eq_true] at hWords
    obtain ⟨hTakes, hStops⟩ := takes_wholeWord_iff_stopsAt.1 h
    obtain ⟨stop, hOther, hRest⟩ := exists_word_of_respaced other hWords.1 hLayout hTakes
    have hOtherStops := hRest.stopsAt (fun _ => isNameChar_eq_false_of_isGap) hStops
    exact ⟨taken, stop, takes_wholeWord_iff_stopsAt.2 ⟨hOther, hOtherStops⟩, hRest⟩
  | cons next words ih =>
    rw [List.all_cons, Bool.and_eq_true] at hWords hNonempty
    obtain ⟨before, middle, _, hWord, hOthers, rfl⟩ := takes_seq.1 h
    obtain ⟨_, _, _, hGaps, hPhrase, rfl⟩ := takes_seq.1 hOthers
    obtain ⟨rfl, rfl, hGap⟩ := takes_gaps_iff.1 hGaps
    obtain ⟨stop, hOtherWord, hMiddle⟩ := exists_word_of_respaced other hWords.1 hLayout hWord
    obtain ⟨otherTaken, last, hOtherPhrase, hRest⟩ :=
      ih hWords.2 hNonempty.2 hMiddle.dropWhile hPhrase
    have hOtherGap := hMiddle.takeWhile_ne_nil hGap
      (filterGrammar_ranked.text_ne_nil hPhrase (phrase_consumes hNonempty.2))
    exact ⟨_, last, takes_seq.2 ⟨before, stop, _, hOtherWord,
      takes_seq.2 ⟨_, _, _, takes_gaps_iff.2 ⟨rfl, rfl, hOtherGap⟩, hOtherPhrase, rfl⟩, rfl⟩, hRest⟩

private theorem isRespaceable_phrase {word : String} {words : List String}
    (hKind : rule.kind = .atomic) (hBody : rule.body = phrase word words)
    (hWords : (word :: words).all isKeyword = true)
    (hNonempty : (word :: words).all (!·.toList.isEmpty) = true)
    (hSpelled : rule.isSpelled = false) : IsRespaceable rule := by
  intro length other text behind rest pieces hLayout hReads
  have hBody : filterGrammar.body rule = phrase word words := hBody
  obtain ⟨taken, hTakes, rfl⟩ := (Reads.rule_atomic hKind rfl).1 hReads
  rw [hBody] at hTakes
  obtain ⟨otherTaken, stop, hOther, hRest⟩ :=
    exists_phrase_of_respaced other hWords hNonempty hLayout hTakes
  rw [← hBody] at hOther
  refine ⟨_, stop, (Reads.rule_atomic hKind rfl).2 ⟨otherTaken, hOther, rfl⟩,
    .singleton (fun h => ?_) (.chars _ _), hRest⟩
  rw [hSpelled] at h
  cases h

private theorem isRespaceable_mark {word : String} (hBody : rule.body = .literal word)
    (hPlain : word.toList.all isPlain = true) : IsRespaceable rule := by
  intro length other text behind rest pieces hLayout hReads
  obtain ⟨rfl, rfl⟩ := (Reads.rule_literal hBody).1 hReads
  obtain ⟨stop, rfl, hRest⟩ := hLayout.exists_append (List.all_eq_true.1 hPlain)
  exact ⟨_, stop, (Reads.rule_literal hBody).2 ⟨rfl, rfl⟩, Piece.allAlike_self _, hRest⟩

private theorem isRespaceable_string : IsRespaceable .string := by
  intro length other text behind rest pieces hLayout hReads
  obtain ⟨quote, body, hBody, rfl, rfl⟩ := exists_quoted_of_reads hReads
  obtain ⟨stop, rfl, hRest⟩ := hLayout.exists_quoted hBody
  exact ⟨_, stop, reads_quoted hBody stop, Piece.allAlike_self _, hRest⟩

/-- The rules of a filter, its end apart. -/
def isInner (rule : Rule) : Bool :=
  rule ∈ [.disjunction, .conjunction, .factor, .group, .negation, .condition, .comparison,
    .nullCheck, .inList, .notInList, .operand, .literalList, .literal, .column, .name, .number,
    .string, .keywordAnd, .keywordOr, .keywordNot, .keywordIn, .keywordNotIn, .isNull, .isNotNull,
    .comparisonSymbol, .leftParen, .rightParen, .comma, .backtick]

private theorem isSimulated (h : isInner rule = true) :
    IsSimulated filterGrammar length other Rule.isSpelled isInner (SameLayout length other) rule := by
  cases rule
  case name | number | comparisonSymbol =>
    exact .leaf (IsRespaceable.simulates (isRespaceable_gapless rfl rfl))
  case keywordAnd | keywordOr | keywordNot | keywordIn =>
    exact .leaf (IsRespaceable.simulates (@isRespaceable_phrase _ _ [] rfl rfl rfl rfl rfl))
  case keywordNotIn | isNull =>
    exact .leaf (IsRespaceable.simulates (@isRespaceable_phrase _ _ [_] rfl rfl rfl rfl rfl))
  case isNotNull =>
    exact .leaf (IsRespaceable.simulates
      (@isRespaceable_phrase _ _ [_, _] rfl rfl rfl rfl rfl))
  case leftParen | rightParen | comma | backtick =>
    exact .leaf (IsRespaceable.simulates (isRespaceable_mark rfl rfl))
  case string => exact .leaf isRespaceable_string.simulates
  case endOfInput | whitespace | filter | nameChar | reserved | sign | digits | exponent
      | doubleQuoted | singleQuoted | gap => cases h
  all_goals exact .joined rfl rfl rfl

/-- A rule that fails fails in each layout. -/
theorem Respaced.reads_none (h : Respaced text behind) (hRule : isInner rule = true)
    (hText : text.length ≤ length) (hBehind : behind.length ≤ other)
    (hNone : filterGrammar.Reads length (.once (.rule rule)) .initial text none) :
    filterGrammar.Reads other (.once (.rule rule)) .initial behind none := by
  have hSimulates : Simulates filterGrammar length other Rule.isSpelled (SameLayout length other)
      (.once (.rule rule)) := .of_joins passesGaps_sameLayout (fun _ => isSimulated) hRule
  obtain ⟨_, hReads, ⟨⟩⟩ := hSimulates ⟨h, hText, hBehind⟩ hNone
  exact hReads

end Tokens

section Filters

variable {text other : List Char} {root : Node Rule}

private theorem IsFilterMatch.exists_of_respaced (hRoot : IsFilterMatch text root)
    (h : Respaced (text.dropWhile isGap) (other.dropWhile isGap)) :
    ∃ otherRoot, IsFilterMatch other otherRoot ∧ Node.Alike Rule.isSpelled root otherRoot := by
  obtain ⟨start, stop, parts, endStart, endStop, -, hStart, ⟨pieces, hReads, hNodes, -⟩, hStop,
    hRule, hParts⟩ := hRoot.exists_parts
  rw [hStart] at hReads
  have hLayout : SameLayout text.length other.length (Mode.initial.behindGap isGap text)
      (Mode.initial.behindGap isGap other) :=
    ⟨h, Mode.length_behindGap_le .., Mode.length_behindGap_le ..⟩
  have hSimulates : Simulates filterGrammar text.length other.length Rule.isSpelled
      (SameLayout text.length other.length) (.once (.rule .disjunction)) :=
    .of_joins passesGaps_sameLayout (fun _ => isSimulated) rfl
  obtain ⟨_, hOther, hAlike⟩ := hSimulates hLayout hReads
  cases hAlike with
  | @success _ others _ behind hAlike hRest =>
    have hAccepts : Accepts filterGrammar other.length (.rule .disjunction) .initial
        (Mode.initial.behindGap isGap other) []
        (Node.AllAlike Rule.isSpelled [.node .disjunction start stop parts]) := by
      intro otherStart hOtherStart
      rw [← hOtherStart] at hOther
      have hBehind := Cursor.rest_past hOther.text_eq
      refine ⟨_, otherStart.past (Piece.textOf others), ⟨others, by rwa [hBehind], rfl, rfl⟩, ?_, ?_⟩
      · rw [hBehind]
        exact hRest.1.dropWhile_eq_nil hStop
      · rw [hNodes]
        exact hAlike.locateAll (hStart.trans hReads.text_eq) hOther.text_eq
    obtain ⟨first, last, _, _, nodes, hOtherNodes, hMatch⟩ :=
      IsFilterMatch.exists_of_accepts hAccepts
    refine ⟨_, hMatch, ?_⟩
    obtain ⟨rule, rootStart, rootStop, rootParts⟩ := root
    obtain rfl : rule = .filter := hRule
    obtain rfl : rootParts = _ := hParts
    have hUnspelled {rule : Rule} (hRule : rule ∈ [.filter, .endOfInput]) : rule.isSpelled ≠ true := by
      revert rule
      decide
    exact ⟨rfl, fun h => absurd h (hUnspelled (by decide)), hOtherNodes.append
      ⟨⟨rfl, fun h => absurd h (hUnspelled (by decide)), trivial⟩, trivial⟩⟩

namespace Nesting

private theorem nests_gaps (h : ∀ c ∈ text, isGap c = true) : Nests text 0 := by
  refine .of_plain fun c hc hMark => ?_
  have hGap := h c hc
  simp only [marks, List.mem_cons, List.not_mem_nil, or_false] at hMark
  rcases hMark with rfl | rfl | rfl | rfl <;> cases hGap

private theorem deepestFrom_inside {quote : Quote} (h : ¬EndsQuoted quote text) (depth : Nat) :
    deepestFrom (.inside quote.char, depth) text = depth := by
  induction hLength : text.length using Nat.strongRecOn generalizing text with
  | _ n ih =>
    subst hLength
    cases text with
    | nil => rfl
    | cons c text =>
      by_cases hQuote : c = quote.char
      · exact absurd ⟨[], text, .nil, by rw [hQuote]; rfl⟩ h
      by_cases hBackslash : c = '\\'
      · subst hBackslash
        cases text with
        | nil => exact Nat.max_self depth
        | cons d text =>
          have hRest : ¬EndsQuoted quote text := by
            rintro ⟨body, rest, hBody, rfl⟩
            exact h ⟨_, rest, .escaped d hBody, rfl⟩
          have hDeepest := ih text.length (by simp only [List.length_cons]; omega) hRest rfl
          change max depth (max depth (deepestFrom (.inside quote.char, depth) text)) = depth
          rw [hDeepest, Nat.max_self, Nat.max_self]
      · have hRest : ¬EndsQuoted quote text := by
          rintro ⟨body, rest, hBody, rfl⟩
          exact h ⟨_, rest, .plain hQuote hBackslash hBody, rfl⟩
        have hStep : Place.step (.inside quote.char, depth) c = (.inside quote.char, depth) := by
          simp [Place.step, Quoting.step, depthAfter, hQuote, hBackslash]
        rw [deepestFrom, hStep, ih _ (Nat.lt_succ_self _) hRest rfl, Nat.max_self]

private theorem deepestFrom_of_respaced (h : Respaced text other) (depth : Nat) :
    deepestFrom (.outside, depth) text = deepestFrom (.outside, depth) other := by
  induction h generalizing depth with
  | ends hFirst hSecond =>
    rw [(nests_gaps hFirst).deepest_eq, (nests_gaps hSecond).deepest_eq]
  | gap hFirst hSecond _ _ _ ih =>
    rw [deepestFrom_append, deepestFrom_append, (nests_gaps hFirst).scan_eq,
      (nests_gaps hSecond).scan_eq, (nests_gaps hFirst).deepest_eq, (nests_gaps hSecond).deepest_eq,
      ih]
  | @char c text other _ hText hOther _ ih =>
    by_cases hQuote : ∃ quote : Quote, c = quote.char
    · obtain ⟨quote, rfl⟩ := hQuote
      have hStep : Place.step (.outside, depth) quote.char = (.inside quote.char, depth) := by
        cases quote <;> rfl
      rw [deepestFrom, deepestFrom, hStep, deepestFrom_inside (hText quote rfl),
        deepestFrom_inside (hOther quote rfl)]
    · have hNone : ¬(c = '\'' ∨ c = '"') := by
        rintro (rfl | rfl)
        · exact hQuote ⟨.single, rfl⟩
        · exact hQuote ⟨.double, rfl⟩
      have hStep : Place.step (.outside, depth) c = (.outside, depthAfter .outside depth c) := by
        simp [Place.step, Quoting.step, hNone]
      rw [deepestFrom, deepestFrom, hStep, ih]
  | @quoted quote body text other hBody _ ih =>
    have hQuoted := nests_quoted hBody
    have hSplit (rest : List Char) :
        deepestFrom (.outside, depth) (quote.char :: (body ++ quote.char :: rest)) =
          max (depth + 0) (deepestFrom (.outside, depth) rest) := by
      have hAppend := deepestFrom_append (.outside, depth) (quote.char :: (body ++ [quote.char])) rest
      rw [hQuoted.scan_eq, hQuoted.deepest_eq] at hAppend
      simpa using hAppend
    rw [hSplit, hSplit, ih]

private theorem isWithinLimit_of_respaced (hText : IsWithinLimit text)
    (h : Respaced (text.dropWhile isGap) (other.dropWhile isGap)) : IsWithinLimit other := by
  have hDrop (text : List Char) :
      IsWithinLimit text ↔ deepestFrom (.outside, 0) (text.dropWhile isGap) ≤ limit := by
    have hGaps : Nests (text.takeWhile isGap) 0 := nests_gaps fun _ => of_mem_takeWhile
    have hDeepest := deepestFrom_append (.outside, 0) (text.takeWhile isGap) (text.dropWhile isGap)
    rw [List.takeWhile_append_dropWhile, hGaps.scan_eq, hGaps.deepest_eq, Nat.zero_max] at hDeepest
    rw [isWithinLimit_iff, hDeepest]
  rw [hDrop] at hText ⊢
  rwa [← deepestFrom_of_respaced h]

end Nesting

/-- What a text spells it also spells in each other layout. -/
theorem Filter.exists_parse_of_respaced {source text : String} {filter : Filter}
    (h : parse source = .ok filter)
    (hLayout : Respaced (source.toList.dropWhile isGap) (text.toList.dropWhile isGap)) :
    ∃ read, parse text = .ok read ∧ read.eraseSpans = filter.eraseSpans := by
  have hWithin := isWithinLimit_of_parse h
  obtain ⟨root, hRoot, hFilter⟩ := exists_isFilterMatch_of_parse h
  obtain ⟨otherRoot, hOther, hAlike⟩ := hRoot.exists_of_respaced hLayout
  exact parse_of_alike hRoot hFilter hOther hAlike
    (Nesting.isWithinLimit_of_respaced hWithin hLayout)

/-- The layout of a text does not matter to what it spells, up to spans, nor to whether it
spells anything. -/
theorem Filter.parse_respaced {source text : String}
    (h : Respaced (source.toList.dropWhile isGap) (text.toList.dropWhile isGap)) :
    (parse source).toOption.map eraseSpans = (parse text).toOption.map eraseSpans := by
  cases hSource : parse source with
  | ok filter =>
    obtain ⟨read, hRead, hErased⟩ := exists_parse_of_respaced hSource h
    rw [hRead]
    exact congrArg some hErased.symm
  | error =>
    cases hText : parse text with
    | error => rfl
    | ok read =>
      obtain ⟨_, hOk, -⟩ := exists_parse_of_respaced hText h.symm
      rw [hSource] at hOk
      cases hOk

end Filters

end RowFilter
