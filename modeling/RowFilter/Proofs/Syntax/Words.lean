import RowFilter.Proofs.Grammar.Accepts
import RowFilter.Proofs.Grammar.Stable
import RowFilter.Proofs.Syntax.Number
import RowFilter.Proofs.Syntax.Printing
import RowFilter.Proofs.Syntax.Ranking

/-! The words of filters in front of more text. A name is read alike wherever
a delimiter follows, and no keyword is read in its place. -/

namespace RowFilter

open Grammar Text

variable {length : Nat} {text taken behind rest : List Char}

/-- Whether a text is left behind a gap. -/
def IsBehindGap (behind rest : List Char) : Prop :=
  Mode.initial.behindGap isGap behind = rest

theorem isBehindGap_self (h : StopsAt isGap rest) : IsBehindGap rest rest :=
  h.dropWhile_eq_self

theorem isBehindGap_blank (h : StopsAt isGap rest) : IsBehindGap (' ' :: rest) rest := by
  have hBlank : isGap ' ' = true := by decide
  exact (List.dropWhile_cons_of_pos hBlank).trans h.dropWhile_eq_self

section Names

theorem reads_of_readsWhole {rule : Rule} (h : rule.readsWhole text = true) :
    ∃ pieces, filterGrammar.Reads text.length (.once (.rule rule)) .initial text
      (some (pieces, [])) := by
  obtain ⟨outcome, hReads, hResult⟩ := exists_reads_read filterGrammar_ranked rule text
  rw [Rule.readsWhole, hResult] at h
  cases outcome with
  | none => cases h
  | some success =>
    obtain ⟨pieces, stop⟩ := success
    have hRest : ((Cursor.ofText text).past (Piece.textOf pieces)).rest = stop :=
      Cursor.rest_past hReads.text_eq
    have hEmpty : ((Cursor.ofText text).past (Piece.textOf pieces)).rest.isEmpty = true := h
    rw [hRest, List.isEmpty_iff] at hEmpty
    rw [hEmpty] at hReads
    exact ⟨pieces, hReads⟩

/-- A rule that takes a text up to its end reads it as a whole. -/
theorem readsWhole_of_takes {rule : Rule} (hKind : rule.kind = .atomic)
    (h : filterGrammar.Takes text.length (.rule rule) text text []) :
    rule.readsWhole text = true := by
  have hRule : filterGrammar.Reads text.length (.once (.rule rule)) .initial text
      (some ([.shown rule (Piece.chars text)], [])) :=
    (Reads.rule_atomic hKind rfl).2 ⟨text, takes_rule.1 h, rfl⟩
  obtain ⟨outcome, hReads, hResult⟩ := exists_reads_read filterGrammar_ranked rule text
  rw [hReads.unique hRule] at hResult
  rw [Rule.readsWhole, hResult]
  exact List.isEmpty_iff.2 (Cursor.rest_past hRule.text_eq)

/-- What a rule that reads a whole text takes. -/
theorem takes_of_readsWhole {rule : Rule} (hKind : rule.kind = .atomic)
    (h : rule.readsWhole text = true) :
    filterGrammar.Takes text.length (.rule rule) text text [] := by
  obtain ⟨pieces, hReads⟩ := reads_of_readsWhole h
  obtain ⟨taken, hTakes, -⟩ := (Reads.rule_atomic hKind rfl).1 hReads
  have hText := hTakes.text_eq
  rw [List.append_nil] at hText
  rw [← hText] at hTakes
  exact takes_rule.2 hTakes

private def isNameRule (rule : Rule) : Bool :=
  rule ∈ [.name, .nameChar, .reserved, .number, .sign, .digits, .exponent]

/-- The characters that end a word of a condition. -/
def delimiters : List Char := [' ', ')', ',']

private theorem rejects_delimiters {rule : Rule} (h : isNameRule rule = true) :
    (filterGrammar.body rule).rejects isNameRule ('`' :: delimiters) = true := by
  revert h
  cases rule <;> decide

/-- Parentheses and quotes. -/
def marks : List Char := ['(', ')', '\'', '"']

/-- The rules of words, names, numbers and symbols, and those that they are made of. -/
def isPlainRule (rule : Rule) : Bool :=
  rule ∈ [.name, .nameChar, .reserved, .number, .sign, .digits, .exponent, .keywordAnd, .keywordOr,
    .keywordNot, .keywordIn, .keywordNotIn, .isNull, .isNotNull, .gap, .comparisonSymbol]

/-- Plain rules accept no parenthesis and no quote. -/
theorem rejects_marks {rule : Rule} (h : isPlainRule rule = true) :
    (filterGrammar.body rule).rejects isPlainRule marks = true := by
  revert h
  cases rule <;> decide

/-- Words, names, numbers and symbols have neither parentheses nor quotes in them. -/
theorem not_mem_marks {rule : Rule} (hRule : isPlainRule rule = true)
    (h : filterGrammar.Takes length (.rule rule) text taken rest) :
    ∀ c ∈ taken, c ∉ marks := by
  have hReads := Reads.not_mem_of_rejects (fun _ => rejects_marks) h hRule
  rwa [Piece.textOf_chars] at hReads

/-- Names have no angle brackets in them. -/
theorem angle_not_mem_name (h : filterGrammar.Takes length (.rule .name) text taken rest) :
    '>' ∉ taken := by
  have hRejects {rule : Rule} (h : isNameRule rule = true) :
      (filterGrammar.body rule).rejects isNameRule ['>'] = true := by
    revert h
    cases rule <;> decide
  have hReads := Reads.not_mem_of_rejects (fun _ => hRejects) h
    (show isNameRule .name = true from rfl)
  rw [Piece.textOf_chars] at hReads
  exact fun hMem => hReads _ hMem List.mem_cons_self

theorem mem_delimiters (h : StopsAt (!isDelimiter ·) behind) :
    ∀ c ∈ behind.head?, c ∈ delimiters := by
  intro c hc
  cases behind with
  | nil => cases hc
  | cons d behind =>
    cases hc
    simp only [stopsAt_cons, isDelimiter, Bool.not_eq_false', Bool.or_eq_true, decide_eq_true_eq]
      at h
    simpa [delimiters, or_assoc] using h

/-- A name is read up to a delimiter or a backtick. -/
theorem takes_name_append {name : List Char} (hName : Rule.name.readsWhole name = true)
    (hBehind : ∀ c ∈ behind.head?, c ∈ '`' :: delimiters) :
    filterGrammar.Takes length (.rule .name) (name ++ behind) name behind := by
  have hTakes := takes_of_readsWhole rfl hName
  exact Reads.followedBy (fun _ => rejects_delimiters) hBehind length hTakes rfl

/-- A name is taken up to the delimiter behind it. -/
theorem takes_name {name : List Char} (hName : Rule.name.readsWhole name = true)
    (hBehind : StopsAt (!isDelimiter ·) behind) :
    filterGrammar.Takes length (.rule .name) (name ++ behind) name behind :=
  takes_name_append hName fun c hc => List.mem_cons_of_mem _ (mem_delimiters hBehind c hc)

/-- A text that begins with a name begins with no keyword and no number. -/
structure BeginsName (length : Nat) (text : List Char) : Prop where
  fails_reserved : filterGrammar.Fails length (.rule .reserved) text
  fails_number : filterGrammar.Fails length (.rule .number) text
  exists_nameChar : ∃ c others, text = c :: others ∧ isNameChar c = true

/-- A text that a name is taken from begins with a name. -/
theorem beginsName_of_takes (h : filterGrammar.Takes length (.rule .name) text taken rest) :
    BeginsName length text := by
  obtain ⟨_, _, _, hReserved, hUnreserved, -⟩ := takes_seq.1 (takes_rule.1 h)
  obtain ⟨_, _, _, hNumber, hWords, -⟩ := takes_seq.1 hUnreserved
  obtain ⟨_, _, _, hWord, -, -⟩ := takes_seq.1 hWords
  obtain ⟨_, _, _, hChar, -, -⟩ := takes_seq.1 hWord
  obtain ⟨hNotReserved, -, rfl⟩ := takes_unless.1 hReserved
  obtain ⟨hNotNumber, -, rfl⟩ := takes_unless.1 hNumber
  obtain ⟨c, hName, -, rfl⟩ := takes_oneOf_iff.1 (takes_rule.1 hChar)
  exact ⟨hNotReserved, hNotNumber, c, _, rfl, hName⟩

theorem beginsName {name : List Char} (length : Nat) (hName : Rule.name.readsWhole name = true)
    (hBehind : StopsAt (!isDelimiter ·) behind) : BeginsName length (name ++ behind) :=
  beginsName_of_takes (takes_name hName hBehind)

private theorem fails_word_of_takes {word other : String}
    (hDiffers : (word.toList.zip other.toList).any (fun (a, b) => a.toLower ≠ b.toLower) = true)
    (h : filterGrammar.Takes length (.word word) text taken rest) :
    filterGrammar.Fails length (.word other) text := by
  rw [takes_word] at h
  rw [fails_word]
  exact takeAll?_eq_none_of_differs h hDiffers

namespace BeginsName

variable {mode : Mode}

/-- The word `NOT` is reserved. -/
theorem refuses_not (h : BeginsName length text) :
    Refuses filterGrammar length (.rule .keywordNot) mode text := by
  refine Refuses.of_fails (fails_rule.2 ?_) rfl
  rcases fails_seq.1 (fails_rule.1 h.fails_reserved) with hWords | ⟨_, _, hWord, hEnd⟩
  · obtain ⟨-, hOthers⟩ := fails_choice.1 hWords
    obtain ⟨-, hOthers⟩ := fails_choice.1 hOthers
    exact fails_seq.2 (.inl (fails_choice.1 hOthers).1)
  rcases takes_choice.1 hWord with hAnd | ⟨-, hWord⟩
  · exact fails_seq.2 (.inl (fails_word_of_takes rfl hAnd))
  rcases takes_choice.1 hWord with hOr | ⟨-, hWord⟩
  · exact fails_seq.2 (.inl (fails_word_of_takes rfl hOr))
  rcases takes_choice.1 hWord with hNot | ⟨hNot, -⟩
  · exact fails_seq.2 (.inr ⟨_, _, hNot, hEnd⟩)
  · exact fails_seq.2 (.inl hNot)

/-- A name begins with no gap. -/
theorem stopsAt_gap (h : BeginsName length text) : StopsAt isGap text := by
  obtain ⟨c, others, rfl, hName⟩ := h.exists_nameChar
  exact isGap_eq_false rfl hName

/-- No number is read where a name begins. -/
theorem refuses_number (h : BeginsName length text) :
    Refuses filterGrammar length (.rule .number) mode text :=
  .of_fails h.fails_number rfl

/-- Only characters of names begin names. -/
theorem refuses_character (h : BeginsName length text) {word : String} {d : Char}
    (hWord : word.toList = [d]) (hChar : isNameChar d = false) :
    Refuses filterGrammar length (.literal word) mode text := by
  obtain ⟨c, others, rfl, hName⟩ := h.exists_nameChar
  apply Refuses.literal
  rw [hWord, List.map_cons, takeAll?, if_neg]
  intro hSame
  rw [of_decide_eq_true hSame, hName] at hChar
  cases hChar

/-- No quoted text is read where a name begins. -/
theorem refuses_string (h : BeginsName length text) :
    Refuses filterGrammar length (.rule .string) mode text :=
  .of_body (.choice (.seqFirst (h.refuses_character rfl rfl))
    (.seqFirst (h.refuses_character rfl rfl)))

end BeginsName

/-- A name is read as a column. -/
theorem accepts_column {name : List Char} (hName : Rule.name.readsWhole name = true)
    (hBehind : StopsAt (!isDelimiter ·) behind) (hGap : IsBehindGap behind rest) :
    Accepts filterGrammar length (.rule .column) .initial (name ++ behind) rest
      (IsWord .name name) := by
  have hBegins := beginsName length hName hBehind
  have hWord : Accepts filterGrammar length (.rule .name) .initial (name ++ behind)
      (Mode.initial.behindGap isGap behind) (IsWord .name name) :=
    .atomic (takes_name hName hBehind) rfl rfl
  rw [hGap] at hWord
  exact .silent (.choiceSecond (.seqFirst (.of_body (hBegins.refuses_character rfl rfl))) hWord) rfl

end Names

end RowFilter
