import RowFilter.Proofs.Filter.Placement
import RowFilter.Proofs.Grammar.Yields
import RowFilter.Proofs.Syntax.Lexemes
import RowFilter.Proofs.Syntax.Lookahead

/-! The edges of what conditions take. A condition begins with its column and
ends with a word, a number, a quote, a backtick or a parenthesis, and a negation
begins with `NOT`. The gaps in both lie between their tokens, so neither takes
the gap around it. -/

namespace RowFilter

open Grammar Text

variable {length bound : Nat} {mode : Mode} {text rest : List Char} {pieces : List (Piece Rule)}

/-- A text whose last character is no gap. -/
private def EndsInk (text : List Char) : Prop := ∃ c, text.getLast? = some c ∧ isGap c = false

private abbrev YieldsInk (bound : Nat) (expr : Expr Rule) (mode : Mode) : Prop :=
  Yields filterGrammar bound expr mode EndsInk

section Ends

private theorem endsInk_of_forall_mem (hText : text ≠ []) (h : ∀ c ∈ text, isGap c = false) :
    EndsInk text :=
  ⟨text.getLast hText, List.getLast?_eq_some_getLast hText, h _ (List.getLast_mem hText)⟩

private theorem EndsInk.append (h : EndsInk text) (before : List Char) : EndsInk (before ++ text) := by
  obtain ⟨c, hLast, hInk⟩ := h
  have hNonempty : text ≠ [] := by
    rintro rfl
    cases hLast
  exact ⟨c, (List.getLast?_append_of_ne_nil _ hNonempty).trans hLast, hInk⟩

private theorem yieldsInk_seq {first second : Expr Rule} (h : YieldsInk bound second mode) :
    YieldsInk bound (.seq first second) mode := by
  have hFirst : Yields filterGrammar bound first mode fun _ => True := fun _ _ _ _ _ _ => trivial
  exact .seq filterGrammar_ranked hFirst h (fun _ _ _ _ hSecond => hSecond.append _)
    (Nat.le_add_right ..)

private def isInkRule (rule : Rule) : Bool :=
  rule ∈ [.name, .nameChar, .reserved, .number, .sign, .digits, .exponent]

private theorem yieldsInk_token {rule : Rule} (hRule : isInkRule rule = true)
    (hKind : rule.kind = .atomic) (hConsumes : rule.consuming = true) :
    YieldsInk bound (.rule rule) mode := by
  have hRejects {rule : Rule} (h : isInkRule rule = true) :
      (filterGrammar.body rule).rejects isInkRule [' ', '\t', '\r', '\n'] = true := by
    revert h
    cases rule <;> decide
  have hYields : Yields filterGrammar bound (.rule rule) mode
      (∀ c ∈ ·, c ∉ [' ', '\t', '\r', '\n']) := .atomic (fun _ => hRejects) hRule hKind
  intro length text rest pieces hText hReads
  apply endsInk_of_forall_mem (filterGrammar_ranked.textOf_ne_nil hReads hConsumes)
  intro c hc
  have hNone := hYields hText hReads c hc
  simpa [isGap, and_assoc] using hNone

private theorem yieldsInk_mark {rule : Rule} {word : String} (hBody : rule.body = .literal word)
    (hWord : EndsInk word.toList) : YieldsInk bound (.rule rule) mode := by
  apply Yields.rule
  change YieldsInk bound rule.body (rule.kind.inside mode)
  rw [hBody]
  exact .literal hWord

private theorem yieldsInk_string : YieldsInk bound (.rule .string) mode := by
  intro length text rest pieces _ hReads
  obtain ⟨quote, body, -, -, rfl⟩ := exists_quoted_of_reads hReads
  rw [textOf_quotedPieces]
  refine ⟨quote.char, ?_, by cases quote <;> rfl⟩
  rw [← List.cons_append]
  exact List.getLast?_concat

private theorem yieldsInk_wholeWord {word : String} (hWord : isKeyword word = true)
    (hNonempty : word.toList ≠ []) : YieldsInk bound (Rule.wholeWord word) .atomic := by
  intro length text rest pieces _ hReads
  obtain ⟨hTakes, -⟩ := takes_wholeWord_iff_stopsAt.1 (Reads.takes hReads)
  apply endsInk_of_forall_mem
  · intro hNil
    rw [hNil] at hTakes
    exact hNonempty ((takes_word_iff hWord).1 hTakes).1.symm
  · intro c hc
    exact isGap_eq_false (p := isNameChar) rfl (isNameChar_of_takes_word hWord hTakes c hc)

private theorem yieldsInk_column : YieldsInk bound (.rule .column) .initial :=
  .rule (.choice (yieldsInk_seq (yieldsInk_seq (yieldsInk_mark rfl ⟨'`', rfl, rfl⟩)))
    (yieldsInk_token rfl rfl rfl))

private theorem yieldsInk_operand : YieldsInk bound (.rule .operand) .initial :=
  .rule (.choice (yieldsInk_token rfl rfl rfl) (.choice yieldsInk_string yieldsInk_column))

private theorem yieldsInk_literalList : YieldsInk bound (.rule .literalList) .initial :=
  .rule (yieldsInk_seq (yieldsInk_seq (yieldsInk_seq (yieldsInk_mark rfl ⟨')', rfl, rfl⟩))))

private theorem yieldsInk_condition : YieldsInk bound (.rule .condition) .initial := by
  have hNull : YieldsInk bound (.choice (.rule .isNotNull) (.rule .isNull)) .initial :=
    .choice
      (.rule (yieldsInk_seq (yieldsInk_seq (yieldsInk_seq (yieldsInk_seq
        (yieldsInk_wholeWord rfl (by decide)))))))
      (.rule (yieldsInk_seq (yieldsInk_seq (yieldsInk_wholeWord rfl (by decide)))))
  exact .rule (.choice (.rule (yieldsInk_seq hNull))
    (.choice (.rule (yieldsInk_seq (yieldsInk_seq yieldsInk_literalList)))
      (.choice (.rule (yieldsInk_seq (yieldsInk_seq yieldsInk_literalList)))
        (.rule (yieldsInk_seq (yieldsInk_seq yieldsInk_operand))))))

end Ends

/-- A negation or a condition begins with no gap. -/
theorem stopsAt_gap_of_reads
    (h : filterGrammar.Reads length (.once (.choice (.rule .negation) (.rule .condition)))
      .initial text (some (pieces, rest))) : StopsAt isGap text := by
  rcases h.of_choice with hNegation | ⟨-, hCondition⟩
  · obtain ⟨_, hBody, -⟩ := hNegation.of_rule
    obtain ⟨_, _, _, hKeyword, -, -⟩ := hBody.of_seq
    obtain ⟨_, hWord, -⟩ := hKeyword.of_rule
    obtain ⟨hTakes, -⟩ := takes_wholeWord_iff_stopsAt.1 (Reads.takes hWord)
    cases text with
    | nil => trivial
    | cons c text =>
      obtain ⟨hLower, hText⟩ := (takes_word_iff rfl).1 hTakes
      have hChars := isNameChar_of_takes_word rfl hTakes
      generalize Piece.textOf _ = taken at hLower hText hChars
      cases taken with
      | nil => cases hLower
      | cons d taken =>
        obtain ⟨rfl, -⟩ := List.cons.inj hText
        exact isGap_eq_false (p := isNameChar) rfl (hChars c List.mem_cons_self)
  · rcases begins_of_reads_condition hCondition with ⟨_, rfl⟩ | hBegins
    · rfl
    · obtain ⟨c, _, rfl, hChar⟩ := hBegins.exists_nameChar
      exact isGap_eq_false (p := isNameChar) rfl hChar

/-- A negation or a condition takes no gap around it. -/
theorem isTrimmed_of_reads
    (h : filterGrammar.Reads length (.once (.choice (.rule .negation) (.rule .condition)))
      .initial text (some (pieces, rest))) : IsTrimmed (Piece.textOf pieces) := by
  have hYields : YieldsInk text.length (.choice (.rule .negation) (.rule .condition)) .initial :=
    .choice (.rule (yieldsInk_seq yieldsInk_condition)) yieldsInk_condition
  obtain ⟨last, hLast, hInk⟩ := hYields (Nat.le_refl _) h
  have hNonempty := filterGrammar_ranked.textOf_ne_nil h rfl
  have hFirst := stopsAt_gap_of_reads h
  rw [h.text_eq] at hFirst
  refine ⟨hNonempty, fun c hc => ?_, fun c hc => ?_⟩
  · obtain ⟨others, hText⟩ := List.head?_eq_some_iff.1 hc
    rw [hText] at hFirst
    exact hFirst
  · rw [hLast] at hc
    cases hc
    exact hInk

/-- A name has characters, but no gap. -/
theorem isTrimmed_of_takes_name {taken : List Char}
    (h : filterGrammar.Takes length (.rule .name) text taken rest) : IsTrimmed taken := by
  have hYields : YieldsInk text.length (.rule .name) .atomic := yieldsInk_token rfl rfl rfl
  obtain ⟨last, hLast, hInk⟩ := hYields (Nat.le_refl _) h
  rw [Piece.textOf_chars] at hLast
  obtain ⟨c, others, hText, hChar⟩ := (beginsName_of_takes h).exists_nameChar
  rw [h.text_eq] at hText
  refine ⟨fun hNil => ?_, fun d hd => ?_, fun d hd => ?_⟩
  · rw [hNil] at hLast
    cases hLast
  · obtain ⟨more, rfl⟩ := List.head?_eq_some_iff.1 hd
    obtain ⟨rfl, -⟩ := List.cons.inj hText
    exact isGap_eq_false (p := isNameChar) rfl hChar
  · rw [hLast] at hd
    cases hd
    exact hInk

end RowFilter
