import RowFilter.Proofs.Grammar.Yields
import RowFilter.Proofs.Syntax.Depth
import RowFilter.Proofs.Syntax.Parse
import RowFilter.Proofs.Syntax.Shape

/-! The parentheses of accepted texts. The grammar and the scan for nested
parentheses know nothing of each other, but they agree on what is quoted, so
the parentheses that the scan counts in an accepted text balance. -/

namespace RowFilter

open Grammar Text Nesting

namespace Nesting

/-- How deep the parentheses of a text nest. -/
def depthOf (text : List Char) : Nat := deepestFrom (.outside, 0) text

/-- A text that leaves a scan where it was. -/
def IsBalanced (text : List Char) : Prop := ∃ depth, Nests text depth

variable {text others : List Char}

theorem Nests.depthOf_eq {depth : Nat} (h : Nests text depth) : depthOf text = depth := by
  rw [depthOf, h.deepest_eq, Nat.zero_add]

/-- A text that nests up to the limit is within the limit. -/
theorem Nests.isWithinLimit {depth : Nat} (h : Nests text depth) (hDepth : depth ≤ limit) :
    IsWithinLimit text := by
  rwa [isWithinLimit_iff, h.deepest_eq, Nat.zero_add]

/-- A balanced text nests as deep as its depth. -/
theorem IsBalanced.nests (h : IsBalanced text) : Nests text (depthOf text) := by
  obtain ⟨depth, hNests⟩ := h
  rwa [hNests.depthOf_eq]

/-- Balanced texts one behind the other are balanced. -/
theorem IsBalanced.append (h : IsBalanced text) (hOthers : IsBalanced others) :
    IsBalanced (text ++ others) :=
  ⟨_, h.nests.append hOthers.nests⟩

theorem not_mem_marks_of_isGap {c : Char} (h : isGap c = true) : c ∉ marks := by
  intro hMark
  simp only [marks, List.mem_cons, List.not_mem_nil, or_false] at hMark
  rcases hMark with rfl | rfl | rfl | rfl <;> cases h

/-- A gap nests nothing. -/
theorem nests_gap (mode : Mode) (text : List Char) : Nests (mode.gap isGap text) 0 := by
  apply Nests.of_plain
  intro c hMem
  cases hMode : mode.skipsBlanks with
  | false => simp [Mode.gap, hMode] at hMem
  | true =>
    simp only [Mode.gap, hMode, if_true] at hMem
    exact not_mem_marks_of_isGap (of_mem_takeWhile hMem)

theorem isBalanced_gap (mode : Mode) (text : List Char) : IsBalanced (mode.gap isGap text) :=
  ⟨0, nests_gap mode text⟩

end Nesting

/-- All that an expression takes of texts up to a length is balanced. -/
abbrev Balances (bound : Nat) (expr : Expr Rule) (mode : Mode) : Prop :=
  Yields filterGrammar bound expr mode IsBalanced

variable {bound : Nat} {mode : Mode} {first second expr : Expr Rule}

/-- All that an expression takes of texts up to a length nests up to a depth. -/
abbrev NestsUpTo (depth bound : Nat) (expr : Expr Rule) (mode : Mode) : Prop :=
  Yields filterGrammar bound expr mode fun taken => ∃ inner ≤ depth, Nests taken inner

section Joining

variable {depth : Nat}

private theorem joins_isBalanced :
    Joins filterGrammar mode IsBalanced IsBalanced IsBalanced :=
  fun _ behind _ hFirst hSecond => (hFirst.append (isBalanced_gap mode behind)).append hSecond

private theorem joins_nestsUpTo :
    Joins filterGrammar mode (fun taken => ∃ inner ≤ depth, Nests taken inner)
      (fun taken => ∃ inner ≤ depth, Nests taken inner)
      (fun taken => ∃ inner ≤ depth, Nests taken inner) := by
  rintro _ behind _ ⟨first, hFirst, hFirstNests⟩ ⟨second, hSecond, hSecondNests⟩
  exact ⟨max first second, Nat.max_le.2 ⟨hFirst, hSecond⟩,
    (hFirstNests.append_flat (nests_gap mode behind)).append hSecondNests⟩

private theorem Balances.seq (hFirst : Balances bound first mode)
    (hSecond : Balances bound second mode) : Balances bound (.seq first second) mode :=
  Yields.seq filterGrammar_ranked hFirst hSecond joins_isBalanced (Nat.le_add_right ..)

private theorem Balances.many (h : Balances bound expr mode) : Balances bound (.many expr) mode :=
  Yields.many h ⟨0, .nil⟩ joins_isBalanced

private theorem NestsUpTo.balances (h : NestsUpTo depth bound expr mode) :
    Balances bound expr mode :=
  h.mono fun _ ⟨inner, _, hNests⟩ => ⟨inner, hNests⟩

private theorem NestsUpTo.seq (hFirst : NestsUpTo depth bound first mode)
    (hSecond : NestsUpTo depth bound second mode) :
    NestsUpTo depth bound (.seq first second) mode :=
  Yields.seq filterGrammar_ranked hFirst hSecond joins_nestsUpTo (Nat.le_add_right ..)

end Joining

section Tokens

variable {depth : Nat}

private theorem nestsUpTo_plain {rule : Rule} (h : isPlainRule rule = true)
    (hKind : rule.kind = .atomic) : NestsUpTo depth bound (.rule rule) mode :=
  (Yields.atomic (fun _ => rejects_marks) h hKind).mono fun _ hPlain =>
    ⟨0, Nat.zero_le _, .of_plain hPlain⟩

private theorem nestsUpTo_mark {rule : Rule} {word : String} (hBody : rule.body = .literal word)
    (hWord : word.toList.all (!marks.contains ·) = true) :
    NestsUpTo depth bound (.rule rule) mode := by
  apply Yields.rule
  change NestsUpTo depth bound rule.body _
  rw [hBody]
  exact .literal ⟨0, Nat.zero_le _, .of_word hWord⟩

private theorem nestsUpTo_string : NestsUpTo depth bound (.rule .string) mode := by
  intro length text rest pieces _ hReads
  obtain ⟨quote, body, hBody, -, rfl⟩ := exists_quoted_of_reads hReads
  rw [textOf_quotedPieces]
  exact ⟨0, Nat.zero_le _, nests_quoted hBody⟩

private theorem nestsUpTo_literal : NestsUpTo depth bound (.rule .literal) mode :=
  .rule (.choice (nestsUpTo_plain rfl rfl) nestsUpTo_string)

private theorem nestsUpTo_column : NestsUpTo depth bound (.rule .column) mode := by
  -- The induction is on the length: a backtick takes a character.
  have hBacktick {bound : Nat} : NestsUpTo depth bound (.rule .backtick) mode :=
    nestsUpTo_mark rfl rfl
  induction bound with
  | zero => exact .zero filterGrammar_ranked rfl
  | succ bound ih =>
    have hQuoted : NestsUpTo depth (bound + 1)
        (.seq (.rule .backtick) (.seq (.rule .column) (.rule .backtick))) mode :=
      Yields.seq filterGrammar_ranked hBacktick (NestsUpTo.seq ih hBacktick) joins_nestsUpTo
        (Nat.le_refl _)
    exact .rule (.choice hQuoted (nestsUpTo_plain rfl rfl))

end Tokens

section Groups

variable {P Q : List Char → Prop}

/-- All that an expression takes has a property but for a parenthesis that closes at the end. -/
private def Closes (bound : Nat) (expr : Expr Rule) (P : List Char → Prop) : Prop :=
  Yields filterGrammar bound expr .initial fun taken => ∃ text, P text ∧ taken = text ++ [')']

theorem yields_mark {rule : Rule} {word : String} {c : Char}
    (hBody : filterGrammar.body rule = .literal word) (hWord : word.toList = [c]) :
    Yields filterGrammar bound (.rule rule) .initial (· = [c]) := by
  apply Yields.rule
  rw [hBody]
  exact .literal hWord

private theorem closes_rightParen (hNil : P []) : Closes bound (.rule .rightParen) P :=
  (yields_mark rfl rfl).mono fun _ h => ⟨[], hNil, h⟩

private theorem Closes.seq (h : Closes bound second P)
    (hFirst : Yields filterGrammar bound first .initial P)
    (hJoins : Joins filterGrammar .initial P P P) : Closes bound (.seq first second) P := by
  refine Yields.seq filterGrammar_ranked hFirst h ?_ (Nat.le_add_right ..)
  rintro taken behind _ hTaken ⟨text, hText, rfl⟩
  exact ⟨_, hJoins taken behind text hTaken hText, (List.append_assoc ..).symm⟩

private theorem Closes.opened (h : Closes bound expr P)
    (hEnclosed : ∀ behind text, P text →
      Q (enclosed true (Mode.initial.gap isGap behind ++ text))) :
    Yields filterGrammar (bound + 1) (.seq (.rule .leftParen) expr) .initial Q := by
  -- The parenthesis that opens takes a character.
  have hLeft : Yields filterGrammar (bound + 1) (.rule .leftParen) .initial (· = ['(']) :=
    yields_mark rfl rfl
  refine Yields.seq filterGrammar_ranked hLeft h ?_ (Nat.le_refl _)
  rintro _ behind _ rfl ⟨text, hText, rfl⟩
  have hAll := hEnclosed behind text hText
  rwa [enclosed, if_pos rfl, List.append_assoc] at hAll

end Groups

section Conditions

private theorem nestsUpTo_literalList : NestsUpTo 1 bound (.rule .literalList) .initial := by
  have hMore : NestsUpTo 0 bound (.many (.seq (.rule .comma) (.rule .literal))) .initial :=
    Yields.many (NestsUpTo.seq (nestsUpTo_mark rfl rfl) nestsUpTo_literal) ⟨0, Nat.le_refl _, .nil⟩
      joins_nestsUpTo
  have hValues := ((closes_rightParen ⟨0, Nat.le_refl _, .nil⟩).seq hMore joins_nestsUpTo).seq
    nestsUpTo_literal joins_nestsUpTo
  refine Yields.rule (Yields.shorter (hValues.opened ?_) (Nat.le_succ bound))
  rintro behind text ⟨inner, hInner, hNests⟩
  exact ⟨inner + 1, Nat.succ_le_succ hInner, ((nests_gap .initial behind).flat_append hNests).enclosed⟩

private theorem nestsUpTo_condition : NestsUpTo 1 bound (.rule .condition) .initial := by
  have hOperand : NestsUpTo 1 bound (.rule .operand) .initial :=
    .rule (.choice (nestsUpTo_plain rfl rfl) (.choice nestsUpTo_string nestsUpTo_column))
  have hNull : NestsUpTo 1 bound (.rule .nullCheck) .initial :=
    .rule (NestsUpTo.seq nestsUpTo_column
      (.choice (nestsUpTo_plain rfl rfl) (nestsUpTo_plain rfl rfl)))
  have hMembership {rule : Rule} (h : isPlainRule rule = true) (hKind : rule.kind = .atomic) :
      NestsUpTo 1 bound (Rule.sequence (.rule .column) [.rule rule, .rule .literalList])
        .initial :=
    .seq nestsUpTo_column (.seq (nestsUpTo_plain h hKind) nestsUpTo_literalList)
  have hComparison : NestsUpTo 1 bound (.rule .comparison) .initial :=
    .rule (NestsUpTo.seq nestsUpTo_column (.seq (nestsUpTo_plain rfl rfl) hOperand))
  exact .rule (.choice hNull (.choice (.rule (hMembership rfl rfl))
    (.choice (.rule (hMembership rfl rfl)) hComparison)))

/-- The only parentheses of a negation or a condition are those around values. -/
theorem nestsUpTo_simpleFactor :
    NestsUpTo 1 bound (.choice (.rule .negation) (.rule .condition)) .initial :=
  .choice (.rule (NestsUpTo.seq (nestsUpTo_plain rfl rfl) nestsUpTo_condition)) nestsUpTo_condition

theorem balances_keyword (connective : Connective) :
    Balances bound (.rule connective.keyword) mode := by
  have hKeyword : NestsUpTo 0 bound (.rule connective.keyword) mode := by
    cases connective <;> exact nestsUpTo_plain rfl rfl
  exact hKeyword.balances

private theorem balances_chain (connective : Connective)
    (h : Balances bound (.rule connective.operandRule) .initial) :
    Balances bound (.rule connective.chainRule) .initial := by
  have hBody : Balances bound connective.chainRule.body .initial := by
    rw [Connective.body_chainRule]
    exact .seq h (.many (.seq (balances_keyword connective) h))
  cases connective <;> exact .rule hBody

private theorem balances_factor_of_group (hGroup : Balances bound (.rule .group) .initial) :
    Balances bound (.rule .factor) .initial :=
  .rule (.choice hGroup nestsUpTo_simpleFactor.balances)

private theorem balances_disjunction_of_group (hGroup : Balances bound (.rule .group) .initial) :
    Balances bound (.rule .disjunction) .initial :=
  balances_chain .or (balances_chain .and (balances_factor_of_group hGroup))

private theorem balances_group (bound : Nat) : Balances bound (.rule .group) .initial := by
  -- The induction is on the length: a parenthesis takes a character.
  induction bound with
  | zero => exact .zero filterGrammar_ranked rfl
  | succ bound ih =>
    have hGroup := (closes_rightParen ⟨0, .nil⟩).seq (balances_disjunction_of_group ih)
      joins_isBalanced
    refine .rule (hGroup.opened fun behind text hText => ?_)
    exact ⟨_, ((isBalanced_gap .initial behind).append hText).nests.enclosed⟩

/-- Factors are balanced. -/
theorem balances_factor (bound : Nat) : Balances bound (.rule .factor) .initial :=
  balances_factor_of_group (balances_group bound)

/-- Conjunctions are balanced. -/
theorem balances_conjunction (bound : Nat) : Balances bound (.rule .conjunction) .initial :=
  balances_chain .and (balances_factor bound)

/-- Disjunctions are balanced. -/
theorem balances_disjunction (bound : Nat) : Balances bound (.rule .disjunction) .initial :=
  balances_chain .or (balances_conjunction bound)

end Conditions

/-- The parentheses of a text that spells a filter balance. -/
theorem Filter.isBalanced_of_parse {source : String} {filter : Filter}
    (h : parse source = .ok filter) : IsBalanced source.toList := by
  obtain ⟨-, start, stop, parts, -, hStart, ⟨pieces, hReads, -, rfl⟩, hStop, -⟩ :=
    exists_disjunction_of_parse h
  have hTaken := balances_disjunction _ (Nat.le_refl _) hReads
  have hText := Mode.initial.gap_append_behindGap isGap source.toList
  have hEnd := Mode.initial.gap_append_behindGap isGap (start.past (Piece.textOf pieces)).rest
  rw [hStop, List.append_nil] at hEnd
  rw [← hText, ← hStart, hReads.text_eq, ← hEnd]
  exact (isBalanced_gap ..).append (hTaken.append (isBalanced_gap ..))

end RowFilter
