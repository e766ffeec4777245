import RowFilter.Proofs.Grammar.Detached
import RowFilter.Proofs.Syntax.Lookahead
import RowFilter.Proofs.Syntax.Seams

/-! Conditions cut out of their text. What a negation or a condition takes is
read alike, piece by piece, wherever it stands and at the end of a text. Tokens
end where they ended before, and the kinds of condition that were tried in vain
fail again. Only a sign behind a name at its end could change what is read. -/

namespace RowFilter

open Grammar Text

variable {length bound : Nat} {mode : Mode} {rule : Rule} {need : List Char → Prop}

section Tokens

private theorem detaches_of_takes (hKind : rule.kind = .atomic)
    (h : ∀ ⦃length : Nat⦄ (other : Nat) ⦃text taken rest behind : List Char⦄,
      filterGrammar.Takes length (.rule rule) text taken rest → BeginsLike isGap rest behind →
      need (Mode.initial.behindGap isGap behind) →
      filterGrammar.Takes other (.rule rule) (taken ++ behind) taken behind) :
    Detaches filterGrammar bound (.rule rule) need := by
  intro length other text rest behind pieces _ _ hReads hBehind hNeed
  obtain ⟨taken, hTakes, rfl⟩ := (Reads.rule_atomic hKind rfl).1 hReads
  have hMore := h other (takes_rule.2 hTakes) hBehind hNeed
  rw [Piece.textOf_shown, Piece.textOf_chars]
  exact (Reads.rule_atomic hKind rfl).2 ⟨taken, takes_rule.1 hMore, rfl⟩

/-- A name is read alike in front of what does not go on with a sign. -/
theorem detaches_name : Detaches filterGrammar bound (.rule .name) (StopsAt isSign) :=
  detaches_of_takes rfl fun _ other _ _ _ _ => takes_name_of_beginsLike other

/-- A number needs nothing of the text behind it. -/
theorem detaches_number : Detaches filterGrammar bound (.rule .number) need :=
  detaches_of_takes rfl fun _ other _ _ _ _ hTakes hBehind _ =>
    takes_number_of_beginsLike other hTakes hBehind

theorem detaches_comparisonSymbol :
    Detaches filterGrammar bound (.rule .comparisonSymbol) need :=
  detaches_of_takes rfl fun _ other _ _ _ _ hTakes hBehind _ =>
    takes_comparisonSymbol_of_beginsLike other hTakes hBehind

/-- A phrase needs nothing of the text behind it. -/
theorem detaches_phrase {word : String} {words : List String} (hKind : rule.kind = .atomic)
    (hBody : rule.body = phrase word words) (hWords : (word :: words).all isKeyword = true)
    (hNonempty : (word :: words).all (!·.toList.isEmpty) = true) :
    Detaches filterGrammar bound (.rule rule) need := by
  refine detaches_of_takes hKind ?_
  intro length other text taken rest behind h hBehind _
  have hBody : filterGrammar.body rule = phrase word words := hBody
  rw [takes_rule, hBody] at h ⊢
  exact takes_phrase_of_beginsLike other hWords hNonempty h hBehind

theorem detaches_mark {word : String} (hBody : rule.body = .literal word) :
    Detaches filterGrammar bound (.rule rule) need := by
  intro length other text rest behind pieces _ _ hReads _ _
  obtain ⟨-, rfl⟩ := (Reads.rule_literal hBody).1 hReads
  have hText : Piece.textOf (if filterGrammar.shows rule .initial then
      [.shown rule (Piece.chars word.toList)] else Piece.chars word.toList) = word.toList := by
    split <;> simp
  rw [hText]
  exact (Reads.rule_literal hBody).2 ⟨rfl, rfl⟩

/-- A quoted text needs nothing of the text behind it. -/
theorem detaches_string : Detaches filterGrammar bound (.rule .string) need := by
  intro length other text rest behind pieces _ _ hReads _ _
  obtain ⟨quote, body, hBody, -, rfl⟩ := exists_quoted_of_reads hReads
  have hMore : filterGrammar.Reads other (.once (.rule .string)) .initial _ _ :=
    reads_quoted hBody behind
  simpa using hMore

end Tokens

section Beginnings

/-- No sign stands where a word does. -/
theorem begins_word {word : String} (hWord : isKeyword word = true)
    (hNonempty : word.toList ≠ []) : Begins filterGrammar mode (.word word) (StopsAt isSign) := by
  intro length text rest pieces hReads
  obtain ⟨taken, hTaken, -⟩ := hReads.of_word
  have hTakes : filterGrammar.Takes length (.word word) text taken rest := takes_word.2 hTaken
  cases taken with
  | nil => exact absurd ((takes_word_iff hWord).1 hTakes).1.symm hNonempty
  | cons c taken =>
    obtain ⟨-, rfl⟩ := (takes_word_iff hWord).1 hTakes
    have hChar := isNameChar_of_takes_word hWord hTakes c List.mem_cons_self
    refine Bool.eq_false_iff.2 fun hSign => ?_
    simp only [isSign, Bool.or_eq_true, decide_eq_true_eq] at hSign
    rcases hSign with (rfl | rfl) | rfl <;> cases hChar

/-- No sign stands where a comparison symbol does. -/
theorem begins_comparisonSymbol :
    Begins filterGrammar mode (.rule .comparisonSymbol) (StopsAt isSign) :=
  .rule (.choice (.literal fun _ => rfl) (.choice (.literal fun _ => rfl)
    (.choice (.literal fun _ => rfl) (.choice (.literal fun _ => rfl)
      (.choice (.literal fun _ => rfl) (.literal fun _ => rfl))))))

private theorem begins_nullTest :
    Begins filterGrammar .initial (.choice (.rule .isNotNull) (.rule .isNull)) (StopsAt isSign) :=
  .choice (.rule (.seq (begins_word rfl (by decide)))) (.rule (.seq (begins_word rfl (by decide))))

end Beginnings

section Conditions

/-- An expression detaches if no sign stands behind it. -/
private abbrev DetachesFromSigns (bound : Nat) (expr : Expr Rule) : Prop :=
  Detaches filterGrammar bound expr (StopsAt isSign)

private theorem detaches_column : DetachesFromSigns bound (.rule .column) := by
  -- The induction is on the length: a backtick takes a character.
  induction bound with
  | zero =>
    intro length other text rest behind pieces hText _ h
    have hLt := filterGrammar_ranked.length_lt h rfl
    omega
  | succ bound ih =>
    have hQuoted : DetachesFromSigns bound (.seq (.rule .column) (.rule .backtick)) :=
      .seq filterGrammar_ranked ih (detaches_mark rfl) (.rule (.literal fun _ => rfl)) rfl
        (Nat.le_add_right ..)
    have hOpened : DetachesFromSigns (bound + 1)
        (.seq (.rule .backtick) (.seq (.rule .column) (.rule .backtick))) :=
      .seq filterGrammar_ranked (detaches_mark rfl) hQuoted .true rfl (Nat.le_refl _)
    exact .rule (.choice hOpened detaches_name excludes_name_backtick) rfl

private theorem detaches_operand : DetachesFromSigns bound (.rule .operand) :=
  .rule (.choice detaches_number (.choice detaches_string detaches_column excludes_column_string)
    excludes_operand_number) rfl

private theorem detaches_literal : Detaches filterGrammar bound (.rule .literal) need :=
  .rule (.choice detaches_number detaches_string excludes_string_number) rfl

private theorem detaches_seq {first second : Expr Rule}
    (hFirst : Detaches filterGrammar bound first fun _ => True)
    (hSecond : Detaches filterGrammar bound second need)
    (hConsumes : second.consumes Rule.consuming = true) :
    Detaches filterGrammar bound (.seq first second) need :=
  .seq filterGrammar_ranked hFirst hSecond .true hConsumes (Nat.le_add_right ..)

private theorem detaches_literalList : Detaches filterGrammar bound (.rule .literalList) need := by
  have hMore : Detaches filterGrammar bound (.seq (.rule .comma) (.rule .literal)) fun _ => True :=
    detaches_seq (detaches_mark rfl) detaches_literal rfl
  have hEnd : Excludes filterGrammar .initial (.rule .rightParen)
      (.seq (.rule .comma) (.rule .literal)) := .seq_right (.rule rfl rfl (.literal fun _ => rfl))
  have hTail : Detaches filterGrammar bound
      (.seq (.many (.seq (.rule .comma) (.rule .literal))) (.rule .rightParen)) need :=
    .many_seq filterGrammar_ranked hMore (detaches_mark rfl) rfl rfl hEnd
  exact .rule (detaches_seq (detaches_mark rfl) (detaches_seq detaches_literal hTail rfl) rfl) rfl

private theorem detaches_behind_column {second : Expr Rule} (hSecond : DetachesFromSigns bound second)
    (hBegins : Begins filterGrammar .initial second (StopsAt isSign))
    (hConsumes : second.consumes Rule.consuming = true) :
    DetachesFromSigns bound (.seq (.rule .column) second) :=
  .seq filterGrammar_ranked detaches_column hSecond hBegins hConsumes (Nat.le_add_right ..)

private theorem detaches_condition : DetachesFromSigns bound (.rule .condition) := by
  have hTest : DetachesFromSigns bound (.choice (.rule .isNotNull) (.rule .isNull)) :=
    .choice (@detaches_phrase _ _ _ _ [_, _] rfl rfl rfl rfl)
      (@detaches_phrase _ _ _ _ [_] rfl rfl rfl rfl) excludes_isNull_isNotNull
  have hNull : DetachesFromSigns bound (.rule .nullCheck) :=
    .rule (detaches_behind_column hTest begins_nullTest rfl) rfl
  have hNotIn : DetachesFromSigns bound (.rule .notInList) :=
    .rule (detaches_behind_column
      (detaches_seq (@detaches_phrase _ _ _ _ [_] rfl rfl rfl rfl) detaches_literalList rfl)
      (.seq (.rule (.seq (begins_word rfl (by decide))))) rfl) rfl
  have hIn : DetachesFromSigns bound (.rule .inList) :=
    .rule (detaches_behind_column
      (detaches_seq (@detaches_phrase _ _ _ _ [] rfl rfl rfl rfl) detaches_literalList rfl)
      (.seq (.rule (.seq (begins_word rfl (by decide))))) rfl) rfl
  have hComparison : DetachesFromSigns bound (.rule .comparison) :=
    .rule (detaches_behind_column (detaches_seq detaches_comparisonSymbol detaches_operand rfl)
      (.seq begins_comparisonSymbol) rfl) rfl
  exact .rule (.choice hNull
    (.choice hNotIn (.choice hIn hComparison excludes_comparison_inList) excludes_others_notInList)
    excludes_others_nullCheck) rfl

/-- What a negation or a condition takes is read again where no sign stands behind it. -/
theorem detaches_simpleFactor :
    Detaches filterGrammar bound (.choice (.rule .negation) (.rule .condition))
      (StopsAt isSign) :=
  .choice
    (.rule (detaches_seq (@detaches_phrase _ _ _ _ [] rfl rfl rfl rfl) detaches_condition rfl) rfl)
    detaches_condition excludes_condition_negation

end Conditions

end RowFilter
