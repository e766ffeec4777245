import RowFilter.Proofs.Grammar.Stack
import RowFilter.Proofs.Syntax.Agreement
import RowFilter.Proofs.Syntax.Levels

/-! How deep reading a filter calls itself. Disjunctions stand within each
other through parentheses, of which the limit leaves only so many open. Columns
stand within each other through backticks, which nothing limits. -/

namespace RowFilter

open Grammar Text Nesting

def filterCall (text : List Char) : Call Rule := ⟨.once (.rule .filter), .initial, text⟩

variable {length : Nat} {text : List Char}

section Disjunctions

private def isFlat (rule : Rule) : Bool :=
  rule ∉ [.filter, .disjunction, .conjunction, .factor, .group]

/-- Whether a rule calls for a disjunction without a parenthesis before it. -/
private def opensDisjunction : Rule → Nat
  | .filter | .disjunction => 1
  | _ => 0

/-- Each open parenthesis pays for a disjunction, and the text itself for one. -/
private def ParensPay (before : List Char) (amount : Nat) : Prop :=
  (scan before).1 = .outside ∧ amount = (scan before).2 + 1

private theorem ParensPay.append {before taken : List Char} {amount : Nat}
    (h : ParensPay before amount) (hTaken : IsBalanced taken) :
    ParensPay (before ++ taken) amount := by
  have hScan : scan (before ++ taken) = scan before := by
    have hPlace : scan before = (.outside, (scan before).2) := Prod.ext h.1 rfl
    rw [scan_append, hPlace, hTaken.nests.scan_eq]
  rwa [ParensPay, hScan]

private theorem earns_of_balances {expr : Expr Rule} (h : ∀ bound, Balances bound expr .initial) :
    Earns filterGrammar length ParensPay expr 0 :=
  fun _ _ _ _ _ hPays hReads => hPays.append (h _ (Nat.le_refl _) hReads)

private theorem balances_atStart {bound : Nat} : Balances bound .atStart .initial := by
  intro length text rest pieces _ hReads
  generalize hOutcome : some (pieces, rest) = outcome at hReads
  cases hReads
  split at hOutcome <;> cases hOutcome
  exact ⟨0, .nil⟩

private theorem earns_leftParen :
    Earns filterGrammar length ParensPay (.rule .leftParen) 1 := by
  intro before text rest amount pieces hPays hReads
  have hTaken : Piece.textOf pieces = ['('] := yields_mark rfl rfl (Nat.le_refl _) hReads
  have hScan := scan_concat before '('
  rw [hPays.1] at hScan
  rw [hTaken, ParensPay, hScan, hPays.2]
  exact ⟨rfl, rfl⟩

private theorem affords_chain (connective : Connective)
    (h : ∀ bound, Balances bound (.rule connective.operandRule) .initial) {amount : Nat}
    (hOperand : Affords filterGrammar length isFlat opensDisjunction ParensPay
      (.rule connective.operandRule) amount) :
    Affords filterGrammar length isFlat opensDisjunction ParensPay connective.chainRule.body
      amount := by
  have hKeyword : Earns filterGrammar length ParensPay (.rule connective.keyword) 0 :=
    earns_of_balances fun _ => balances_keyword connective
  have hGap {before : List Char} {amount : Nat} (text : List Char)
      (hPays : ParensPay before amount) :
      ParensPay (before ++ Mode.initial.gap isGap text) amount :=
    hPays.append (isBalanced_gap .initial text)
  have hFlat : (Expr.rule connective.keyword).within isFlat = true := by cases connective <;> rfl
  rw [Connective.body_chainRule]
  exact .seq hOperand (earns_of_balances h)
    (.many (.seq (.quiet hFlat) hKeyword hOperand) (.seq hGap hKeyword (earns_of_balances h)))

private theorem budget_disjunction :
    Budget filterGrammar length isFlat opensDisjunction ParensPay (· = .disjunction) where
  gap text hPays := hPays.append (isBalanced_gap .initial text)
  not_counted rule h := by cases rule <;> first | rfl | cases h
  quiet_body rule h := by cases rule <;> first | rfl | cases h
  inside_eq rule h := by cases rule <;> first | rfl | cases h
  cost_le rule _ := by cases rule <;> decide
  affords_body rule h := by
    cases rule with
    | filter =>
      exact .seq (.quiet rfl) (earns_of_balances fun _ => balances_atStart)
        (.seq (.rule rfl (Nat.le_refl _)) (earns_of_balances balances_disjunction) (.quiet rfl))
    | disjunction => exact affords_chain .or balances_conjunction (.rule rfl (Nat.zero_le _))
    | conjunction => exact affords_chain .and balances_factor (.rule rfl (Nat.zero_le _))
    | factor =>
      exact .choice (.rule rfl (Nat.zero_le _)) (.choice (.quiet rfl) (.quiet rfl))
    | group =>
      exact .seq (.quiet rfl) earns_leftParen
        (.seq (.rule rfl (Nat.le_refl _)) (earns_of_balances balances_disjunction) (.quiet rfl))
    | _ => cases h

private theorem amount_le {whole before rest : List Char} {amount : Nat}
    (h : IsWithinLimit whole) (hWhole : whole = before ++ rest) (hPays : ParensPay before amount) :
    amount ≤ limit + 1 := by
  subst hWhole
  have hDeepest := isWithinLimit_iff.1 h
  rw [deepestFrom_append] at hDeepest
  have hPlace : (scan before).2 ≤ deepestFrom (scan before) rest := le_deepestFrom _ _
  have hScan : scanFrom (.outside, 0) before = scan before := rfl
  rw [hScan] at hDeepest
  rw [hPays.2]
  omega

end Disjunctions

section Columns

private def isColumnless (rule : Rule) : Bool :=
  rule ∉ [.filter, .disjunction, .conjunction, .factor, .group, .negation, .condition, .comparison,
    .nullCheck, .inList, .notInList, .operand, .column]

/-- Each backtick pays for a column, and the text itself for one. -/
private def BackticksPay (before : List Char) (amount : Nat) : Prop :=
  amount ≤ before.count '`' + 1

private theorem earns_nothing (expr : Expr Rule) :
    Earns filterGrammar length BackticksPay expr 0 := by
  intro before text rest amount pieces hPays _
  rw [BackticksPay, List.count_append]
  exact Nat.le_trans hPays (by omega)

private theorem earns_backtick :
    Earns filterGrammar length BackticksPay (.rule .backtick) 1 := by
  intro before text rest amount pieces hPays hReads
  have hTaken : Piece.textOf pieces = ['`'] := yields_mark rfl rfl (Nat.le_refl _) hReads
  rw [hTaken, BackticksPay, List.count_append, List.count_singleton_self]
  exact Nat.succ_le_succ hPays

private theorem budget_column :
    Budget filterGrammar length isColumnless (fun _ => 1) BackticksPay (· = .column) where
  gap text hPays := by
    rw [BackticksPay, List.count_append]
    exact Nat.le_trans hPays (by omega)
  not_counted rule h := by cases rule <;> first | rfl | cases h
  quiet_body rule h := by cases rule <;> first | rfl | cases h
  inside_eq rule h := by cases rule <;> first | rfl | cases h
  cost_le rule _ := by cases rule <;> decide
  affords_body rule h := by
    have hAffords {expr : Expr Rule} (hExpr : expr.composes (fun _ => true) = true) :
        Affords filterGrammar length isColumnless (fun _ => 1) BackticksPay expr 1 :=
      .of_composes earns_nothing (fun _ _ => Nat.le_refl _) hExpr
    cases rule with
    | column =>
      exact .choice (.seq (.quiet rfl) earns_backtick
        (.seq (.rule rfl (Nat.le_refl _)) (earns_nothing _) (.quiet rfl))) (.quiet rfl)
    | filter | disjunction | conjunction | factor | group | negation | condition | comparison
    | nullCheck | inList | notInList | operand => exact hAffords rfl
    | _ => cases h

end Columns

/-- Reading a text within the limit as a filter never calls for more disjunctions within each other
than parentheses may be open, and one. Columns within each other are only bounded by the backticks
of the text. -/
theorem recursion_le {stack : List (Call Rule)} (h : firstExcess text = none)
    (hStack : filterGrammar.IsStack text.length (filterCall text) stack) :
    stack.countP (Call.applies (· = .disjunction)) ≤ limit + 1 ∧
      stack.countP (Call.applies (· = .column)) ≤ text.count '`' + 1 := by
  constructor
  · exact hStack.countP_le budget_disjunction
      (fun before rest amount => amount_le (firstExcess_eq_none.1 h)) rfl ⟨rfl, rfl⟩
  · refine hStack.countP_le budget_column (fun before rest amount hWhole hPays => ?_) rfl ?_
    · rw [hWhole, List.count_append]
      exact Nat.le_trans hPays (by omega)
    · exact Nat.le_refl _

/-- A disjunction within a disjunction. -/
theorem recursion_le_group :
    let text := "(`a` IS NULL)".toList
    ∃ stack, firstExcess text = none ∧ filterGrammar.IsStack text.length (filterCall text) stack ∧
      stack.countP (Call.applies (· = .disjunction)) = 2 ∧
      stack.countP (Call.applies (· = .disjunction)) ≤ limit + 1 ∧
      stack.countP (Call.applies (· = .column)) ≤ text.count '`' + 1 := by
  intro text
  have hWithin : firstExcess text = none := by decide +kernel
  have hStart : filterGrammar.Reads text.length (.once .atStart) .initial text (some ([], text)) :=
    .atStart .initial text
  have hDisjunction : filterGrammar.IsStack text.length (filterCall text) _ :=
    .call (.call (.call .root (.rule Rule.filter _ _)) (.seqSecond _ hStart)) (.seqFirst _ _ _ _)
  have hFactor := IsStack.call (.call (.call (.call hDisjunction (.rule Rule.disjunction _ _))
    (.seqFirst _ _ _ _)) (.rule Rule.conjunction _ _)) (.seqFirst _ _ _ _)
  have hGroup := IsStack.call (.call hFactor (.rule Rule.factor _ _)) (.choiceFirst _ _ _ _)
  have hMark : filterGrammar.Reads text.length (.once (filterGrammar.body .leftParen))
      ((filterGrammar.kind .leftParen).inside .initial) ("(".toList ++ "`a` IS NULL)".toList)
      (some (Piece.chars "(".toList, "`a` IS NULL)".toList)) := .literal_append "(" _
  have hParen : filterGrammar.Reads text.length (.once (.rule .leftParen)) .initial
      (Mode.initial.behindGap filterGrammar.isBlank text) (some (_, "`a` IS NULL)".toList)) :=
    Reads.rule_some hMark
  have hInside := IsStack.call (.call (.call hGroup (.rule Rule.group _ _)) (.seqSecond _ hParen))
    (.seqFirst _ _ _ _)
  exact ⟨_, hWithin, hInside, by rfl, recursion_le hWithin hInside⟩

section Backticks

/-- A column between pairs of backticks. -/
def quotedColumn : Nat → List Char → List Char
  | 0, behind => 'a' :: behind
  | depth + 1, behind => '`' :: quotedColumn depth ('`' :: behind)

variable {depth : Nat} {behind : List Char}

private theorem behindGap_quotedColumn (depth : Nat) (behind : List Char) :
    Mode.initial.behindGap isGap (quotedColumn depth behind) = quotedColumn depth behind := by
  cases depth <;> rfl

private theorem nests_quotedColumn (h : Nests behind 0) : Nests (quotedColumn depth behind) 0 := by
  induction depth generalizing behind with
  | zero => exact .cons (by decide) h
  | succ depth ih => exact .cons (by decide) (ih (.cons (by decide) h))

private theorem accepts_backtick :
    Accepts filterGrammar length (.rule .backtick) .initial ('`' :: behind)
      (Mode.initial.behindGap isGap behind) (· = []) :=
  .silent Accepts.literal rfl

private theorem accepts_enclosed {P : List (Node Rule) → Prop}
    (h : Accepts filterGrammar length (.rule .column) .initial text ('`' :: behind) P)
    (hText : Mode.initial.behindGap isGap text = text) :
    Accepts filterGrammar length (Rule.sequence (.rule .backtick) [.rule .column, .rule .backtick])
      .initial ('`' :: text) (Mode.initial.behindGap isGap behind)
      (Joined (· = []) (Joined P (· = []))) := by
  have hOpen : Accepts filterGrammar length (.rule .backtick) .initial ('`' :: text) text
      (· = []) := by
    have hBacktick := @accepts_backtick length text
    rwa [hText] at hBacktick
  exact hOpen.seq (h.seq accepts_backtick)

private theorem accepts_quotedColumn (hBehind : ∀ c ∈ behind.head?, c ∈ '`' :: delimiters) :
    Accepts filterGrammar length (.rule .column) .initial (quotedColumn depth behind)
      (Mode.initial.behindGap isGap behind) (fun _ => True) := by
  induction depth generalizing behind with
  | zero =>
    have hName : filterGrammar.Takes length (.rule .name) (['a'] ++ behind) ['a'] behind :=
      takes_name_append (by decide +kernel) hBehind
    have hWord : Accepts filterGrammar length (.rule .name) .initial ('a' :: behind)
        (Mode.initial.behindGap isGap behind) (IsWord .name ['a']) := .atomic hName rfl rfl
    have hColumn : Accepts filterGrammar length (.rule .column) .initial ('a' :: behind)
        (Mode.initial.behindGap isGap behind) (IsWord .name ['a']) :=
      .silent (.choiceSecond (.seqFirst (.of_body (.literal rfl))) hWord) rfl
    exact hColumn.mono fun _ _ => trivial
  | succ depth ih =>
    have hInner : Accepts filterGrammar length (.rule .column) .initial
        (quotedColumn depth ('`' :: behind)) ('`' :: behind) (fun _ => True) :=
      ih fun c hc => by cases hc; exact List.mem_cons_self
    have hColumn : Accepts filterGrammar length (.rule .column) .initial
        (quotedColumn (depth + 1) behind) (Mode.initial.behindGap isGap behind) _ :=
      .silent (.choiceFirst (accepts_enclosed hInner (behindGap_quotedColumn depth _))) rfl
    exact hColumn.mono fun _ _ => trivial

private theorem exists_branch_quotedColumn {root : Call Rule} {calls : List (Call Rule)}
    (hBehind : ∀ c ∈ behind.head?, c ∈ '`' :: delimiters)
    (h : filterGrammar.IsBranch length root
      (⟨.once (.rule .column), .initial, quotedColumn depth behind⟩ :: calls)) :
    ∃ stack, filterGrammar.IsBranch length root stack ∧
      stack.countP (Call.applies (· = .column)) =
        calls.countP (Call.applies (· = .column)) + (depth + 1) := by
  induction depth generalizing behind calls with
  | zero => exact ⟨_, h, List.countP_cons_of_pos rfl⟩
  | succ depth ih =>
    have hNext : ∀ c ∈ ('`' :: behind).head?, c ∈ '`' :: delimiters := by
      intro c hc
      cases hc
      exact List.mem_cons_self
    have hInner : Accepts filterGrammar length (.rule .column) .initial
        (quotedColumn depth ('`' :: behind)) ('`' :: behind) (fun _ => True) :=
      accepts_quotedColumn hNext
    obtain ⟨_, _, ⟨_, hEnclosed, -⟩, -⟩ :=
      accepts_enclosed hInner (behindGap_quotedColumn depth _) (.ofText _) rfl
    obtain ⟨_, _, ⟨_, hBacktick, -⟩, hStop, -⟩ :=
      @accepts_backtick length (quotedColumn depth ('`' :: behind)) (.ofText _) rfl
    have hText := hStop.trans (behindGap_quotedColumn depth ('`' :: behind))
    have hColumn := ((h.rule.choiceFirst hEnclosed).seqSecond hBacktick hText).seqFirst
    obtain ⟨stack, hStack, hCount⟩ := ih hNext hColumn
    refine ⟨stack, hStack, hCount.trans ?_⟩
    -- Of the calls that were added, only the enclosing column is counted.
    simp only [Call.applies, List.countP_cons, Bool.false_eq_true, if_false, decide_true, if_true]
    omega

private def quotedNullCheck (depth : Nat) : List Char := quotedColumn depth " IS NULL".toList

private theorem mem_delimiters_behind :
    ∀ c ∈ " IS NULL".toList.head?, c ∈ '`' :: delimiters := by
  intro c hc
  obtain rfl : ' ' = c := Option.some.inj hc
  exact List.mem_cons_of_mem _ List.mem_cons_self

private theorem accepts_quotedNullCheck :
    Accepts filterGrammar length (.rule .nullCheck) .initial (quotedNullCheck depth) []
      (fun _ => True) := by
  have hColumn : Accepts filterGrammar length (.rule .column) .initial (quotedNullCheck depth)
      (nullTestWords false ++ []) (fun _ => True) := accepts_quotedColumn mem_delimiters_behind
  have hTest : Accepts filterGrammar length (.choice (.rule .isNotNull) (.rule .isNull)) .initial
      (nullTestWords false ++ []) [] _ := accepts_nullTest false trivial rfl
  have hCheck : Accepts filterGrammar length (.rule .nullCheck) .initial (quotedNullCheck depth) []
      _ := .normal (hColumn.seq hTest) rfl rfl
  exact hCheck.mono fun _ _ => trivial

private theorem refuses_group :
    Refuses filterGrammar length (.rule .group) .initial (quotedNullCheck depth) := by
  cases depth <;> exact .of_body (.seqFirst (.of_body (.literal rfl)))

private theorem refuses_negation :
    Refuses filterGrammar length (.rule .negation) .initial (quotedNullCheck depth) := by
  cases depth <;> exact .of_body (.seqFirst (refuses_word rfl rfl rfl))

private theorem accepts_start :
    Accepts filterGrammar (quotedNullCheck depth).length .atStart .initial (quotedNullCheck depth)
      (quotedNullCheck depth) (· = []) := by
  have hGap : Mode.initial.behindGap filterGrammar.isBlank (quotedNullCheck depth) =
      quotedNullCheck depth := behindGap_quotedColumn depth _
  have hAtStart := @Accepts.atStart _ filterGrammar (quotedNullCheck depth).length .initial
    (quotedNullCheck depth) rfl
  rwa [hGap] at hAtStart

private theorem exists_isFilterMatch (depth : Nat) :
    ∃ root, IsFilterMatch (quotedNullCheck depth) root := by
  let length := (quotedNullCheck depth).length
  have hCondition : Accepts filterGrammar length (.rule .condition) .initial
      (quotedNullCheck depth) [] _ := .silent (.choiceFirst accepts_quotedNullCheck) rfl
  have hFactor : Accepts filterGrammar length (.rule .factor) .initial
      (quotedNullCheck depth) [] _ :=
    .silent (.choiceSecond refuses_group (.choiceSecond refuses_negation hCondition)) rfl
  have hNoMore (connective : Connective) :
      Accepts filterGrammar length (.many (furtherOperand connective)) .initial [] [] (· = []) := by
    cases connective <;> exact .many (.done (.seqFirst (refuses_word rfl rfl rfl))) rfl
  have hConjunction : Accepts filterGrammar length (.rule .conjunction) .initial
      (quotedNullCheck depth) [] _ := .normal (hFactor.seq (hNoMore .and)) rfl rfl
  have hDisjunction : Accepts filterGrammar length (.rule .disjunction) .initial
      (quotedNullCheck depth) [] _ := .normal (hConjunction.seq (hNoMore .or)) rfl rfl
  have hEnd : Accepts filterGrammar length (.rule .endOfInput) .initial [] [] _ :=
    .normal .atEnd rfl rfl
  have hFilter : Accepts filterGrammar length (.rule .filter) .initial
      (quotedNullCheck depth) [] _ :=
    .normal (accepts_start.seq (hDisjunction.seq hEnd)) rfl rfl
  obtain ⟨_, stop, hMatches, -, start, last, parts, rfl, -⟩ := hFilter (.ofText _) rfl
  exact ⟨_, stop, hMatches⟩

private theorem exists_branch (depth : Nat) :
    ∃ stack, filterGrammar.IsBranch (quotedNullCheck depth).length
      (filterCall (quotedNullCheck depth)) stack ∧
      stack.countP (Call.applies (· = .column)) = depth + 1 := by
  obtain ⟨_, stop, _, hFilter, -⟩ := exists_isFilterMatch depth
  have hRoot : filterGrammar.IsBranch (quotedNullCheck depth).length
      (filterCall (quotedNullCheck depth)) [filterCall (quotedNullCheck depth)] :=
    ⟨.root, List.forall_mem_singleton.2 ⟨_, hFilter⟩⟩
  obtain ⟨_, _, ⟨_, hStart, -⟩, hStop, -⟩ :=
    @accepts_start depth (.ofText _) rfl
  obtain ⟨_, _, ⟨_, hNull, -⟩, -⟩ :=
    @accepts_quotedNullCheck (quotedNullCheck depth).length depth (.ofText _) rfl
  have hDisjunction := (hRoot.rule.seqSecond hStart hStop).seqFirst
  have hFactor := hDisjunction.rule.seqFirst.rule.seqFirst
  have hCondition := (hFactor.rule.choiceSecond refuses_group).choiceSecond refuses_negation
  have hColumn := (hCondition.rule.choiceFirst hNull).rule.seqFirst
  obtain ⟨stack, hStack, hCount⟩ := exists_branch_quotedColumn mem_delimiters_behind hColumn
  refine ⟨stack, hStack, hCount.trans ?_⟩
  simp [Call.applies]

end Backticks

/-- The limit on parentheses does not bound the number of calls within each other: there is no
bound for the disjunctions and columns in a branch of the derivation of a filter. -/
theorem recursion_unbounded :
    ¬∃ bound, ∀ text, firstExcess text = none → (∃ root, IsFilterMatch text root) →
      ∀ stack, filterGrammar.IsBranch text.length (filterCall text) stack →
        stack.countP (Call.applies fun rule => rule = .disjunction ∨ rule = .column) ≤ bound := by
  rintro ⟨bound, hBound⟩
  obtain ⟨stack, hStack, hCount⟩ := exists_branch bound
  have hWords : Nests " IS NULL".toList 0 := .of_word rfl
  have hWithin : firstExcess (quotedNullCheck bound) = none :=
    firstExcess_eq_none.2 ((nests_quotedColumn hWords).isWithinLimit (Nat.zero_le limit))
  have hLe := hBound _ hWithin (exists_isFilterMatch bound) stack hStack
  have hMore : stack.countP (Call.applies (· = .column)) ≤
      stack.countP (Call.applies fun rule => rule = .disjunction ∨ rule = .column) := by
    refine List.countP_mono_left fun call _ h => ?_
    obtain ⟨rule, hTask⟩ := call.exists_rule_of_applies h
    rw [Call.applies, hTask] at h ⊢
    exact decide_eq_true (.inr (of_decide_eq_true h))
  omega

end RowFilter
