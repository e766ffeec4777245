import RowFilter.Proofs.Grammar.Stable
import RowFilter.Proofs.Syntax.Keywords

/-! Conditions in front of more text. The first characters of what follows a
column decide which kind of condition is read, so conditions that are written
in any way are read alike wherever a delimiter stands behind them. -/

namespace RowFilter

open Grammar Text

/-- Texts up to a length are read alike in front of a delimiter. -/
abbrev IsStable (bound : Nat) (expr : Expr Rule) (mode : Mode) : Prop :=
  Stable filterGrammar delimiters bound expr mode

variable {length bound : Nat} {text rest : List Char} {pieces : List (Piece Rule)} {mode : Mode}

section Tokens

private def isTokenRule (rule : Rule) : Bool :=
  rule ∈ [.name, .nameChar, .reserved, .number, .sign, .digits, .exponent, .keywordAnd, .keywordOr,
    .keywordNot, .keywordIn, .comparisonSymbol]

private theorem token_rejects {rule : Rule} (h : isTokenRule rule = true) :
    (filterGrammar.body rule).rejects isTokenRule delimiters = true := by
  revert h
  cases rule <;> decide

private theorem isStable_token {rule : Rule} (h : isTokenRule rule = true)
    (hKind : rule.kind = .atomic) : IsStable bound (.rule rule) mode :=
  .atomic_rule (fun _ => token_rejects) h hKind

theorem isStable_keyword (connective : Connective) :
    IsStable bound (.rule connective.keyword) mode := by
  cases connective <;> exact isStable_token rfl rfl

theorem isStable_mark {rule : Rule} {word : String} (h : rule.body = .literal word) :
    IsStable bound (.rule rule) mode := by
  refine Stable.rule ?_
  change Stable filterGrammar delimiters bound rule.body (rule.kind.inside mode)
  rw [h]
  exact .literal

private theorem isStable_wholeWord (word : String)
    (h : (Rule.wholeWord word).rejects isTokenRule delimiters = true) :
    IsStable bound (Rule.wholeWord word) .atomic := .atomic (fun _ => token_rejects) h

private theorem takes_gaps_append {taken behind : List Char}
    (h : filterGrammar.Takes length (.many (.rule .gap)) text taken rest) (hRest : rest ≠ [])
    (other : Nat) :
    filterGrammar.Takes other (.many (.rule .gap)) (text ++ behind) taken (rest ++ behind) := by
  induction h using Takes.many_induction with
  | last _ hFails =>
    obtain ⟨c, others, rfl⟩ := List.exists_cons_of_ne_nil hRest
    have hStops : StopsAt isGap (c :: others) := fails_class.1 (fails_rule.1 hFails)
    exact takes_many.2 (.inl ⟨fails_rule.2 (fails_class.2 hStops), rfl, rfl⟩)
  | more _ hGap _ ih =>
    obtain ⟨c, hBlank, rfl, rfl⟩ := takes_oneOf_iff.1 (takes_rule.1 hGap)
    refine takes_many.2 (.inr ⟨[c], _, _, ?_, ih, rfl⟩)
    exact takes_rule.2 (takes_oneOf_iff.2 ⟨c, hBlank, rfl, rfl⟩)

private theorem isStable_gaps {second : Expr Rule} (hSecond : IsStable bound second .atomic)
    (hConsumes : second.consumes Rule.consuming = true) :
    IsStable bound (.seq (.many1 (.rule .gap)) second) .atomic := by
  intro length other text rest behind pieces hText _ hBehind h
  obtain ⟨_, middle, _, hGaps, hSecondReads, rfl⟩ := h.of_seq
  have hMiddleLe := hGaps.length_le
  have hMiddle : middle ≠ [] := filterGrammar_ranked.text_ne_nil hSecondReads hConsumes
  obtain ⟨before, stop, after, hGap, hMore, hTaken⟩ := takes_seq.1 hGaps.takes
  obtain ⟨c, hBlank, rfl, rfl⟩ := takes_oneOf_iff.1 (takes_rule.1 hGap)
  have hFirst : filterGrammar.Takes other (.rule .gap) (c :: (stop ++ behind)) [c]
      (stop ++ behind) := takes_rule.2 (takes_oneOf_iff.2 ⟨c, hBlank, rfl, rfl⟩)
  have hGapsMore := takes_seq.2 ⟨_, _, _, hFirst, takes_gaps_append hMore hMiddle other, hTaken⟩
  rw [hGaps.eq_chars rfl]
  have hSeq := Reads.seq hGapsMore
    (hSecond other (Nat.le_trans hMiddleLe hText) rfl hBehind hSecondReads)
  exact hSeq

private theorem isStable_phrase {word : String} {second : Expr Rule}
    (hSecond : IsStable bound second .atomic) (hConsumes : second.consumes Rule.consuming = true) :
    IsStable bound (.seq (.word word) (.seq (.many1 (.rule .gap)) second)) .atomic :=
  .seq filterGrammar_ranked .word (isStable_gaps hSecond hConsumes) rfl (Nat.le_add_right ..)

theorem isStable_keywordNotIn : IsStable bound (.rule .keywordNotIn) mode :=
  .rule (isStable_phrase (isStable_wholeWord "in" rfl) rfl)

theorem isStable_isNull : IsStable bound (.rule .isNull) mode :=
  .rule (isStable_phrase (isStable_wholeWord "null" rfl) rfl)

theorem isStable_isNotNull : IsStable bound (.rule .isNotNull) mode :=
  .rule (isStable_phrase (isStable_phrase (isStable_wholeWord "null" rfl) rfl) rfl)

end Tokens

section Values

private theorem isStable_string : IsStable bound (.rule .string) mode := by
  intro length other text rest behind pieces _ _ _ h
  obtain ⟨quote, body, hBody, rfl, rfl⟩ := exists_quoted_of_reads h
  have hMore : filterGrammar.Reads other (.once (.rule .string)) mode _ _ :=
    reads_quoted hBody (rest ++ behind)
  simpa using hMore

/-- No text begins with both a quoted text and a number. -/
theorem excludes_string_number :
    Excludes filterGrammar mode (.rule .string) (.rule .number) := by
  intro length text rest pieces h
  obtain ⟨quote, body, -, rfl, -⟩ := exists_quoted_of_reads h
  exact refuses_number_quote quote _

theorem isStable_literal : IsStable bound (.rule .literal) mode :=
  .rule (.choice (isStable_token rfl rfl) isStable_string excludes_string_number)

end Values

section Columns

private theorem begins_of_reads_column
    (h : filterGrammar.Reads length (.once (.rule .column)) .initial text (some (pieces, rest))) :
    (∃ behind, text = '`' :: behind) ∨ BeginsName length text := by
  obtain ⟨_, hParts, -⟩ := h.of_rule
  rcases hParts.of_choice with hQuoted | ⟨-, hName⟩
  · obtain ⟨_, _, _, hMark, -, -⟩ := hQuoted.of_seq
    obtain ⟨_, hOpen, -⟩ := hMark.of_rule
    exact .inl ⟨_, hOpen.of_literal.2⟩
  · obtain ⟨_, hBody, -⟩ := hName.of_rule
    have hTakes := takes_rule.2 (Reads.takes hBody)
    exact .inr (beginsName_of_takes hTakes)

private theorem excludes_column_number :
    Excludes filterGrammar .initial (.rule .column) (.rule .number) := by
  intro length text rest pieces h
  rcases begins_of_reads_column h with ⟨behind, rfl⟩ | hBegins
  · exact refuses_number (stopsAt_cons.2 rfl)
  · exact hBegins.refuses_number

/-- No text begins with both a column and a quoted text. -/
theorem excludes_column_string :
    Excludes filterGrammar .initial (.rule .column) (.rule .string) := by
  intro length text rest pieces h
  rcases begins_of_reads_column h with ⟨behind, rfl⟩ | hBegins
  · exact Refuses.of_body (.choice (.seqFirst (.literal rfl)) (.seqFirst (.literal rfl)))
  · exact hBegins.refuses_string

/-- What is tried as an operand behind a number begins with none. -/
theorem excludes_operand_number :
    Excludes filterGrammar .initial (.choice (.rule .string) (.rule .column)) (.rule .number) :=
  .choice_left excludes_string_number excludes_column_number

theorem excludes_name_backtick {second : Expr Rule} :
    Excludes filterGrammar .initial (.rule .name) (.seq (.rule .backtick) second) := by
  intro length text rest pieces h
  obtain ⟨_, hBody, -⟩ := h.of_rule
  have hTakes := takes_rule.2 (Reads.takes hBody)
  exact .seqFirst (Refuses.of_body ((beginsName_of_takes hTakes).refuses_character rfl rfl))

/-- The induction is on the length: a backtick takes a character. -/
theorem isStable_column : IsStable bound (.rule .column) .initial := by
  induction bound with
  | zero =>
    intro length other text rest behind pieces hText _ _ h
    have hLt := filterGrammar_ranked.length_lt h rfl
    omega
  | succ bound ih =>
    have hBacktick {bound : Nat} : IsStable bound (.rule .backtick) .initial := isStable_mark rfl
    have hQuoted : IsStable bound (.seq (.rule .column) (.rule .backtick)) .initial :=
      .seq filterGrammar_ranked ih hBacktick rfl (Nat.le_add_right ..)
    exact .rule (.choice (.seq filterGrammar_ranked hBacktick hQuoted rfl (Nat.le_refl _))
      (isStable_token rfl rfl) excludes_name_backtick)

private theorem isStable_operand : IsStable bound (.rule .operand) .initial :=
  .rule (.choice (isStable_token rfl rfl)
    (.choice isStable_string isStable_column excludes_column_string) excludes_operand_number)

end Columns

section Conditions

private theorem isStable_literalList : IsStable bound (.rule .literalList) .initial := by
  have hMore : IsStable bound (.seq (.rule .comma) (.rule .literal)) .initial :=
    .seq filterGrammar_ranked (isStable_mark rfl) isStable_literal rfl (Nat.le_add_right ..)
  have hEnd : Excludes filterGrammar .initial (.rule .rightParen)
      (.seq (.rule .comma) (.rule .literal)) := .seq_right (.rule rfl rfl (.literal fun _ => rfl))
  have hTail : IsStable bound
      (.seq (.many (.seq (.rule .comma) (.rule .literal))) (.rule .rightParen)) .initial :=
    .many_seq filterGrammar_ranked hMore (isStable_mark rfl) rfl hEnd
  exact .rule (.seq filterGrammar_ranked (isStable_mark rfl)
    (.seq filterGrammar_ranked isStable_literal hTail rfl (Nat.le_add_right ..)) rfl
    (Nat.le_add_right ..))

private theorem excludes_words {rule other : Rule} {word otherWord : String} {expr last : Expr Rule}
    (hBody : rule.body = .seq (.word word) expr) (hKind : rule.kind = .atomic)
    (hOther : other.body = .seq (.word otherWord) last) (hOtherKind : other.kind = .atomic)
    (hDiffers :
      (word.toList.zip otherWord.toList).any (fun (a, b) => a.toLower ≠ b.toLower) = true) :
    Excludes filterGrammar mode (.rule rule) (.rule other) := by
  have hInside {rule : Rule} (hKind : rule.kind = .atomic) :
      (filterGrammar.kind rule).inside mode = .atomic := by
    change rule.kind.inside mode = .atomic
    rw [hKind]
    rfl
  have hWords : Excludes filterGrammar .atomic rule.body other.body := by
    rw [hBody, hOther]
    exact .seq_left (.seq_right (.word hDiffers))
  exact .rule (hInside hKind) (hInside hOtherKind) hWords

/-- No text begins with both `OR` and `AND`. -/
theorem excludes_or_and : Excludes filterGrammar mode (.rule .keywordOr) (.rule .keywordAnd) :=
  excludes_words rfl rfl rfl rfl rfl

private theorem excludes_symbol {other : Rule} {word : String} {last : Expr Rule}
    (hOther : other.body = .seq (.word word) last) (hOtherKind : other.kind = .atomic)
    (hWord : word ∈ ["is", "not", "in"]) :
    Excludes filterGrammar .initial (.rule .comparisonSymbol) (.rule other) := by
  have hSymbols : Excludes filterGrammar .atomic Rule.comparisonSymbol.body (.word word) := by
    simp only [List.mem_cons, List.not_mem_nil, or_false] at hWord
    rcases hWord with rfl | rfl | rfl
    all_goals
      exact .choice_left (.literal_word fun _ => rfl) (.choice_left (.literal_word fun _ => rfl)
        (.choice_left (.literal_word fun _ => rfl) (.choice_left (.literal_word fun _ => rfl)
          (.choice_left (.literal_word fun _ => rfl) (.literal_word fun _ => rfl)))))
  have hInside : (filterGrammar.kind other).inside .initial = .atomic := by
    change other.kind.inside .initial = .atomic
    rw [hOtherKind]
    rfl
  have hOthers : Excludes filterGrammar .atomic Rule.comparisonSymbol.body other.body := by
    rw [hOther]
    exact .seq_right hSymbols
  exact .rule rfl hInside hOthers

/-- The word `NULL` is not the word `NOT`. -/
theorem excludes_isNull_isNotNull :
    Excludes filterGrammar .initial (.rule .isNull) (.rule .isNotNull) :=
  .rule rfl rfl (.seq_same (.seq_same (.seq_left (.seq_right (.word rfl)))))

private theorem excludes_nullCheck {rule : Rule} {word second : Expr Rule}
    (hRule : rule.body = .seq (.rule .column) (.seq word second)) (hKind : rule.kind = .normal)
    (hNotNull : Excludes filterGrammar .initial word (.rule .isNotNull))
    (hNull : Excludes filterGrammar .initial word (.rule .isNull)) :
    Excludes filterGrammar .initial (.rule rule) (.rule .nullCheck) := by
  have hInside : (filterGrammar.kind rule).inside .initial = .initial := by
    change rule.kind.inside .initial = .initial
    rw [hKind]
    rfl
  have hBody : Excludes filterGrammar .initial rule.body Rule.nullCheck.body := by
    rw [hRule]
    exact .seq_same (.seq_left (.choice_right hNotNull hNull))
  exact .rule hInside rfl hBody

theorem excludes_comparison_inList :
    Excludes filterGrammar .initial (.rule .comparison) (.rule .inList) :=
  .rule rfl rfl (.seq_same (.seq_left (.seq_right (excludes_symbol rfl rfl (by decide)))))

/-- What is tried behind a negated membership condition is none. -/
theorem excludes_others_notInList :
    Excludes filterGrammar .initial (.choice (.rule .inList) (.rule .comparison))
      (.rule .notInList) :=
  .choice_left
    (.rule rfl rfl (.seq_same (.seq_left (.seq_right (excludes_words rfl rfl rfl rfl rfl)))))
    (.rule rfl rfl (.seq_same (.seq_left (.seq_right (excludes_symbol rfl rfl (by decide))))))

/-- What is tried behind a null check is none. -/
theorem excludes_others_nullCheck :
    Excludes filterGrammar .initial
      (.choice (.rule .notInList) (.choice (.rule .inList) (.rule .comparison)))
      (.rule .nullCheck) := by
  have hNotIn : Excludes filterGrammar .initial (.rule .notInList) (.rule .nullCheck) :=
    excludes_nullCheck rfl rfl (excludes_words rfl rfl rfl rfl rfl)
      (excludes_words rfl rfl rfl rfl rfl)
  have hIn : Excludes filterGrammar .initial (.rule .inList) (.rule .nullCheck) :=
    excludes_nullCheck rfl rfl (excludes_words rfl rfl rfl rfl rfl)
      (excludes_words rfl rfl rfl rfl rfl)
  have hComparison : Excludes filterGrammar .initial (.rule .comparison) (.rule .nullCheck) :=
    excludes_nullCheck rfl rfl (excludes_symbol rfl rfl (by decide))
      (excludes_symbol rfl rfl (by decide))
  exact .choice_left hNotIn (.choice_left hIn hComparison)

private theorem isStable_membership {keyword : Rule}
    (h : IsStable bound (.rule keyword) .initial) :
    IsStable bound (Rule.sequence (.rule .column) [.rule keyword, .rule .literalList]) .initial :=
  .seq filterGrammar_ranked isStable_column
    (.seq filterGrammar_ranked h isStable_literalList rfl (Nat.le_add_right ..))
    (Bool.or_true _) (Nat.le_add_right ..)

/-- A condition is read alike in front of a delimiter. -/
theorem isStable_condition : IsStable bound (.rule .condition) .initial := by
  have hNull : IsStable bound (.rule .nullCheck) .initial :=
    .rule (.seq filterGrammar_ranked isStable_column
      (.choice isStable_isNotNull isStable_isNull excludes_isNull_isNotNull) rfl
      (Nat.le_add_right ..))
  have hNotIn : IsStable bound (.rule .notInList) .initial :=
    .rule (isStable_membership isStable_keywordNotIn)
  have hIn : IsStable bound (.rule .inList) .initial :=
    .rule (isStable_membership (isStable_token rfl rfl))
  have hComparison : IsStable bound (.rule .comparison) .initial :=
    .rule (.seq filterGrammar_ranked isStable_column
      (.seq filterGrammar_ranked (isStable_token rfl rfl) isStable_operand rfl
        (Nat.le_add_right ..)) rfl (Nat.le_add_right ..))
  exact .rule (.choice hNull
    (.choice hNotIn (.choice hIn hComparison excludes_comparison_inList) excludes_others_notInList)
    excludes_others_nullCheck)

/-- A condition begins with a column. -/
theorem begins_of_reads_condition
    (h : filterGrammar.Reads length (.once (.rule .condition)) .initial text
      (some (pieces, rest))) :
    (∃ behind, text = '`' :: behind) ∨ BeginsName length text := by
  have hKind {rule : Rule} {second : Expr Rule} {parts : List (Piece Rule)}
      (hBody : filterGrammar.body rule = .seq (.rule .column) second)
      (hKind : (filterGrammar.kind rule).inside .initial = .initial)
      (hReads : filterGrammar.Reads length (.once (.rule rule)) .initial text
        (some (parts, rest))) :
      (∃ behind, text = '`' :: behind) ∨ BeginsName length text := by
    obtain ⟨_, hParts, -⟩ := hReads.of_rule
    rw [hBody, hKind] at hParts
    obtain ⟨_, _, _, hColumn, -, -⟩ := hParts.of_seq
    exact begins_of_reads_column hColumn
  obtain ⟨_, hParts, -⟩ := h.of_rule
  rcases hParts.of_choice with hNull | ⟨-, hParts⟩
  · exact hKind rfl rfl hNull
  rcases hParts.of_choice with hNotIn | ⟨-, hParts⟩
  · exact hKind rfl rfl hNotIn
  rcases hParts.of_choice with hIn | ⟨-, hComparison⟩
  · exact hKind rfl rfl hIn
  · exact hKind rfl rfl hComparison

theorem excludes_condition_negation :
    Excludes filterGrammar .initial (.rule .condition) (.rule .negation) := by
  intro length text rest pieces h
  rcases begins_of_reads_condition h with ⟨behind, rfl⟩ | hBegins
  · exact Refuses.of_body (.seqFirst (refuses_word rfl rfl rfl))
  · exact Refuses.of_body (.seqFirst hBegins.refuses_not)

private theorem excludes_condition_group :
    Excludes filterGrammar .initial (.rule .condition) (.rule .group) := by
  intro length text rest pieces h
  rcases begins_of_reads_condition h with ⟨behind, rfl⟩ | hBegins
  · exact Refuses.of_body (.seqFirst (refuses_mark rfl rfl (by decide)))
  · exact Refuses.of_body (.seqFirst (.of_body (hBegins.refuses_character rfl rfl)))

private theorem excludes_negation_group :
    Excludes filterGrammar .initial (.rule .negation) (.rule .group) := by
  have hParen : Excludes filterGrammar .atomic Rule.keywordNot.body (.literal "(") :=
    .seq_left (.word_literal rfl rfl rfl)
  intro length text rest pieces h
  obtain ⟨_, hBody, -⟩ := h.of_rule
  obtain ⟨_, _, _, hKeyword, -, -⟩ := hBody.of_seq
  obtain ⟨_, hWord, -⟩ := hKeyword.of_rule
  have hNone := fails_literal.1 (hParen hWord)
  exact Refuses.of_body (.seqFirst (.of_body (.literal hNone)))

/-- A factor without parentheses. -/
theorem isStable_simpleFactor :
    IsStable bound (.choice (.rule .negation) (.rule .condition)) .initial :=
  .choice (.rule (.seq filterGrammar_ranked (isStable_token rfl rfl) isStable_condition rfl
    (Nat.le_add_right ..))) isStable_condition excludes_condition_negation

theorem excludes_simpleFactor_group :
    Excludes filterGrammar .initial (.choice (.rule .negation) (.rule .condition)) (.rule .group) :=
  .choice_left excludes_negation_group excludes_condition_group

end Conditions

end RowFilter
