import RowFilter.Proofs.Syntax.Words
import RowFilter.Syntax.Tree

/-! Quoted texts. What may stand between quotes is read up to the quote behind
it, since a quote inside follows a backslash. -/

namespace RowFilter

open Grammar Text

/-- What may stand between two quotes. -/
inductive IsQuotable (quote : Char) : List Char → Prop where
  | nil : IsQuotable quote []
  | escaped (c : Char) {text : List Char} (h : IsQuotable quote text) :
      IsQuotable quote ('\\' :: c :: text)
  | plain {c : Char} {text : List Char} (hQuote : c ≠ quote) (hBackslash : c ≠ '\\')
      (h : IsQuotable quote text) : IsQuotable quote (c :: text)

variable {length : Nat} {text taken behind rest : List Char}

private def quotedRound (quote : Char) : Expr Rule :=
  .choice (.seq (.literal "\\") (.oneOf fun _ => true))
    (.oneOf fun c => c ≠ quote && c ≠ '\\')

private theorem takes_round_escaped {quote c : Char} :
    filterGrammar.Takes length (quotedRound quote) ('\\' :: c :: rest) ['\\', c] rest := by
  refine takes_choice.2 (.inl (takes_seq.2 ⟨['\\'], c :: rest, [c], ?_, ?_, rfl⟩))
  · exact (takes_character '\\' rfl).2 ⟨rfl, rfl⟩
  · exact takes_oneOf_iff.2 ⟨c, rfl, rfl, rfl⟩

private theorem takes_round_plain {quote c : Char} (hQuote : c ≠ quote) (hBackslash : c ≠ '\\') :
    filterGrammar.Takes length (quotedRound quote) (c :: rest) [c] rest := by
  refine takes_choice.2 (.inr ⟨fails_seq.2 (.inl ?_), takes_oneOf_iff.2 ⟨c, ?_, rfl, rfl⟩⟩)
  · exact (fails_character '\\' rfl).2 (decide_eq_false hBackslash)
  · simp [hQuote, hBackslash]

private theorem round_of_takes {quote : Char}
    (h : filterGrammar.Takes length (quotedRound quote) text taken rest) :
    (∃ c, taken = ['\\', c] ∧ text = '\\' :: c :: rest) ∨
      ∃ c, c ≠ quote ∧ c ≠ '\\' ∧ taken = [c] ∧ text = c :: rest := by
  rcases takes_choice.1 h with h | ⟨-, h⟩
  · obtain ⟨_, _, _, hBackslash, hAny, rfl⟩ := takes_seq.1 h
    obtain ⟨rfl, rfl⟩ := (takes_character '\\' rfl).1 hBackslash
    obtain ⟨c, -, rfl, rfl⟩ := takes_oneOf_iff.1 hAny
    exact .inl ⟨c, rfl, rfl⟩
  · obtain ⟨c, hAccepted, rfl, rfl⟩ := takes_oneOf_iff.1 h
    simp only [Bool.and_eq_true, decide_eq_true_eq] at hAccepted
    exact .inr ⟨c, hAccepted.1, hAccepted.2, rfl, rfl⟩

private theorem fails_round {quote : Char} (hQuote : quote ≠ '\\') (rest : List Char) :
    filterGrammar.Fails length (quotedRound quote) (quote :: rest) := by
  refine fails_choice.2 ⟨fails_seq.2 (.inl ?_), fails_oneOf.2 ?_⟩
  · exact (fails_character '\\' rfl).2 (decide_eq_false hQuote)
  · simp [takeAll?]

/-- What is taken up to a quote can stand between quotes. -/
theorem isQuotable_of_takes {quote : Char}
    (h : filterGrammar.Takes length (Rule.escapedUntil quote) text taken rest) :
    IsQuotable quote taken := by
  induction h using Takes.many_induction with
  | last => exact .nil
  | more _ hRound _ ih =>
    rcases round_of_takes hRound with ⟨c, rfl, rfl⟩ | ⟨c, hQuote, hBackslash, rfl, rfl⟩
    · exact .escaped c ih
    · exact .plain hQuote hBackslash ih

/-- What can stand between quotes is taken up to the quote. -/
theorem IsQuotable.takes {quote : Char} (hQuote : quote ≠ '\\') (h : IsQuotable quote text) :
    filterGrammar.Takes length (Rule.escapedUntil quote) (text ++ quote :: behind) text
      (quote :: behind) := by
  induction h with
  | nil => exact takes_many.2 (.inl ⟨fails_round hQuote behind, rfl, rfl⟩)
  | escaped c _ ih =>
    exact takes_many.2 (.inr ⟨['\\', c], _, _, takes_round_escaped, ih, rfl⟩)
  | @plain c _ hOther hBackslash _ ih =>
    exact takes_many.2 (.inr ⟨[c], _, _, takes_round_plain hOther hBackslash, ih, rfl⟩)

namespace Quote

variable (quote : Quote)

theorem char_ne_backslash : quote.char ≠ '\\' := by cases quote <;> decide

/-- What the rule of a quote reads whole can stand between these quotes. -/
theorem isQuotable {quote : Quote} (h : quote.bodyRule.readsWhole text = true) :
    IsQuotable quote.char text := by
  have hTakes := takes_rule.1 (takes_of_readsWhole (by cases quote <;> rfl) h)
  cases quote <;> exact isQuotable_of_takes hTakes

theorem takes_bodyRule {quote : Quote} (h : IsQuotable quote.char text) :
    filterGrammar.Takes length (.rule quote.bodyRule) (text ++ quote.char :: behind) text
      (quote.char :: behind) := by
  have hTakes : filterGrammar.Takes length (Rule.escapedUntil quote.char)
      (text ++ quote.char :: behind) text (quote.char :: behind) :=
    h.takes quote.char_ne_backslash
  cases quote <;> exact takes_rule.2 hTakes

end Quote

section Strings

variable {mode : Mode} {pieces : List (Piece Rule)} {body : List Char}

/-- Quotes with a text between them, which is shown where matches are recorded. -/
def quotedParts (mode : Mode) (quote : Quote) (body : List Char) : List (Piece Rule) :=
  Piece.chars [quote.char] ++
    ((if mode.records then [.shown quote.bodyRule (Piece.chars body)] else Piece.chars body) ++
      Piece.chars [quote.char])

def quotedPieces (mode : Mode) (quote : Quote) (body : List Char) : List (Piece Rule) :=
  if mode.records then [.shown .string (quotedParts mode quote body)]
  else quotedParts mode quote body

/-- A quoted text is read up to its quote, whatever stands behind it. -/
theorem reads_quoted {quote : Quote} (h : IsQuotable quote.char body) (rest : List Char) :
    filterGrammar.Reads length (.once (.rule .string)) mode
      (quote.char :: (body ++ quote.char :: rest)) (some (quotedPieces mode quote body, rest)) := by
  let inside : Mode := { mode with skipsBlanks := false }
  have hKind : (filterGrammar.kind quote.bodyRule).inside inside = .atomic := by
    cases quote <;> rfl
  have hShows : filterGrammar.shows quote.bodyRule inside = mode.records := by
    cases quote <;> simp [shows, filterGrammar, Quote.bodyRule, Rule.kind, inside]
  have hBody : filterGrammar.Reads length (.once (filterGrammar.body quote.bodyRule))
      ((filterGrammar.kind quote.bodyRule).inside inside) (body ++ quote.char :: rest)
      (some (Piece.chars body, quote.char :: rest)) := by
    rw [hKind]
    exact takes_rule.1 (Quote.takes_bodyRule h)
  have hMark {word : String} (hWord : word.toList = [quote.char]) (behind : List Char) :
      filterGrammar.Reads length (.once (.literal word)) inside (quote.char :: behind)
        (some (Piece.chars [quote.char], behind)) := by
    have hLiteral : filterGrammar.Reads length (.once (.literal word)) inside
        (word.toList ++ behind) (some (Piece.chars word.toList, behind)) :=
      .literal_append word behind
    rwa [hWord] at hLiteral
  have hQuoted {word : String} (hWord : word.toList = [quote.char]) :
      filterGrammar.Reads length
        (.once (.seq (.literal word) (.seq (.rule quote.bodyRule) (.literal word)))) inside
        (quote.char :: (body ++ quote.char :: rest))
        (some (quotedParts mode quote body, rest)) := by
    have hSeq := Reads.seq (hMark hWord (body ++ quote.char :: rest))
      (Reads.seq (Reads.rule_some hBody) (hMark hWord rest))
    simpa [quotedParts, Mode.gap, inside, hShows, Piece.chars] using hSeq
  have hString : filterGrammar.Reads length (.once (filterGrammar.body .string)) inside
      (quote.char :: (body ++ quote.char :: rest)) (some (quotedParts mode quote body, rest)) := by
    cases quote with
    | double => exact .choiceFirst (hQuoted rfl)
    | single => exact .choiceSecond (.seqFirst (.literal "\"" inside _)) (hQuoted rfl)
  have hShown : filterGrammar.shows .string mode = mode.records := by
    simp [shows, filterGrammar, Rule.kind]
  rw [quotedPieces, ← hShown]
  exact Reads.rule_some hString

/-- Only quoted texts are read. -/
theorem exists_quoted_of_reads
    (h : filterGrammar.Reads length (.once (.rule .string)) mode text (some (pieces, rest))) :
    ∃ quote : Quote, ∃ body, IsQuotable quote.char body ∧
      text = quote.char :: (body ++ quote.char :: rest) ∧
        pieces = quotedPieces mode quote body := by
  suffices hText : ∃ quote : Quote, ∃ body, IsQuotable quote.char body ∧
      text = quote.char :: (body ++ quote.char :: rest) by
    obtain ⟨quote, body, hBody, rfl⟩ := hText
    obtain ⟨rfl, -⟩ := Prod.mk.inj (Option.some.inj (h.unique (reads_quoted hBody rest)))
    exact ⟨quote, body, hBody, rfl, rfl⟩
  obtain ⟨_, hParts, -⟩ := h.of_rule
  have hQuoted {quote : Quote} {word : String} {pieces : List (Piece Rule)}
      (hWord : word.toList = [quote.char])
      (hReads : filterGrammar.Reads length
        (.once (.seq (.literal word) (.seq (.rule quote.bodyRule) (.literal word))))
        { mode with skipsBlanks := false } text (some (pieces, rest))) :
      ∃ body, IsQuotable quote.char body ∧ text = quote.char :: (body ++ quote.char :: rest) := by
    obtain ⟨_, _, _, hOpen, hOthers, -⟩ := hReads.of_seq
    obtain ⟨_, stop, _, hBody, hClose, -⟩ := hOthers.of_seq
    obtain ⟨-, rfl⟩ := hOpen.of_literal
    obtain ⟨-, hStop⟩ := hClose.of_literal
    obtain rfl : stop = quote.char :: rest := hStop.trans (by rw [hWord, List.singleton_append])
    obtain ⟨parts, hParts, -⟩ := hBody.of_rule
    have hKind : (filterGrammar.kind quote.bodyRule).inside { mode with skipsBlanks := false } =
        .atomic := by cases quote <;> rfl
    rw [hKind] at hParts
    have hQuotable : IsQuotable quote.char (Piece.textOf parts) := by
      have hTakes := hParts.takes
      cases quote <;> exact isQuotable_of_takes hTakes
    exact ⟨_, hQuotable, by rw [hWord]; exact congrArg (quote.char :: ·) hParts.text_eq⟩
  rcases hParts.of_choice with hDouble | ⟨-, hSingle⟩
  · exact ⟨.double, hQuoted rfl hDouble⟩
  · exact ⟨.single, hQuoted rfl hSingle⟩

@[simp] theorem textOf_quotedPieces (mode : Mode) (quote : Quote) (body : List Char) :
    Piece.textOf (quotedPieces mode quote body) = quote.char :: (body ++ [quote.char]) := by
  cases h : mode.records <;> simp [quotedPieces, quotedParts, h, Piece.textOf, Piece.text]

def quotedNode (quote : Quote) (body : List Char) (start : Cursor) : Node Rule :=
  .node .string start (start.past (quote.char :: (body ++ [quote.char])))
    [.node quote.bodyRule (start.past [quote.char]) ((start.past [quote.char]).past body) []]

/-- The text between the quotes of a match is its body. -/
theorem quotedText_quotedNode {quote : Quote} {start : Cursor}
    (hStart : start.rest = quote.char :: (body ++ quote.char :: rest)) :
    quotedText (quotedNode quote body start) = String.ofList body := by
  have hInner : (start.past [quote.char]).rest = body ++ quote.char :: rest :=
    Cursor.rest_past (by simp [hStart])
  exact congrArg String.ofList (Cursor.textTo_past hInner)

/-- A text between quotes matches as a string. -/
theorem matches_quoted {quote : Quote} (hBody : IsQuotable quote.char body) {start : Cursor}
    (hStart : start.rest = quote.char :: (body ++ quote.char :: rest)) :
    filterGrammar.Matches length (.once (.rule .string)) .initial start
      [quotedNode quote body start] (start.past (quote.char :: (body ++ [quote.char]))) := by
  have hStop : (start.past (quote.char :: (body ++ [quote.char]))).rest = rest :=
    Cursor.rest_past (by simp [hStart])
  refine ⟨quotedPieces .initial quote body, ?_, ?_, by rw [textOf_quotedPieces]⟩
  · rw [hStart, hStop]
    exact reads_quoted hBody rest
  · simp [quotedNode, quotedPieces, quotedParts, Mode.initial, Piece.textOf, Piece.text,
      Piece.locateAll, Piece.locate]

/-- Only quoted texts are matched. -/
theorem exists_quoted_of_matches {start stop : Cursor} {nodes : List (Node Rule)}
    (h : filterGrammar.Matches length (.once (.rule .string)) .initial start nodes stop) :
    ∃ quote : Quote, ∃ body, IsQuotable quote.char body ∧
      start.rest = quote.char :: (body ++ quote.char :: stop.rest) ∧
      stop = start.past (quote.char :: (body ++ [quote.char])) ∧
      nodes = [quotedNode quote body start] := by
  obtain ⟨_, hReads, -, hStop⟩ := id h
  obtain ⟨quote, body, hBody, hRest, rfl⟩ := exists_quoted_of_reads hReads
  rw [textOf_quotedPieces] at hStop
  exact ⟨quote, body, hBody, hRest, hStop, h.unique (matches_quoted hBody hRest)⟩

end Strings

end RowFilter
