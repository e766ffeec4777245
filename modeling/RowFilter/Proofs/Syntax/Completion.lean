import RowFilter.Proofs.Grammar.Awaited
import RowFilter.Proofs.Syntax.Detached
import RowFilter.Proofs.Syntax.Levels

/-! Beginnings of filters that can be completed. Each rule of a filter is read
again in front of any text that does what is needed behind the rule: a sign
would go on with a name, and a connective with a chain. What the grammar has
behind each rule fulfils that need, so wherever a rule is tried a text for it
can stand, with more text behind it. -/

namespace RowFilter

open Grammar Text

namespace Rule

/-- What must stand behind the match of a rule, up to a gap, for the rule to match it again. -/
def need : Rule → List Char → Prop
  | endOfInput, text => text = []
  | disjunction, text =>
    StopsAt isSign text ∧ firstWord text ≠ "and".toList ∧ firstWord text ≠ "or".toList
  | conjunction, text => StopsAt isSign text ∧ firstWord text ≠ "and".toList
  | factor, text | negation, text | condition, text | comparison, text | operand, text
  | column, text | name, text => StopsAt isSign text
  | _, _ => True

/-- The rules that are called for behind the beginning of a filter and outside of words. -/
def isAwaited (rule : Rule) : Bool :=
  rule ∉ [.filter, .whitespace, .gap, .nameChar, .reserved, .sign, .digits, .exponent,
    .doubleQuoted, .singleQuoted]

def isQuoted (rule : Rule) : Bool := rule = .doubleQuoted || rule = .singleQuoted

/-- A text for each rule. -/
def sampleText : Rule → String
  | filter | disjunction | conjunction | factor | condition | comparison => "x = 1"
  | group => "(x = 1)"
  | negation => "not x = 1"
  | nullCheck => "x is null"
  | inList => "x in (1)"
  | notInList => "x not in (1)"
  | literalList => "(1)"
  | column | name | nameChar => "x"
  | operand | literal | number | digits => "1"
  | reserved | keywordAnd => "and"
  | keywordOr => "or"
  | keywordNot => "not"
  | keywordIn => "in"
  | keywordNotIn => "not in"
  | isNull => "is null"
  | isNotNull => "is not null"
  | sign => "+"
  | exponent => "e1"
  | string => "\"\""
  | comparisonSymbol => "="
  | leftParen => "("
  | rightParen => ")"
  | comma => ","
  | backtick => "`"
  | whitespace | gap => " "
  | endOfInput | doubleQuoted | singleQuoted => ""

/-- Each rule reads its sample. -/
theorem readsWhole_sampleText (rule : Rule) : rule.readsWhole rule.sampleText.toList = true := by
  cases rule <;> decide +kernel

end Rule

variable {rule : Rule} {need : List Char → Prop} {text : List Char}

private theorem isWholeText_sampleText (h : rule.isAwaited = true) :
    IsWholeText filterGrammar rule rule.sampleText.toList := by
  obtain ⟨pieces, hReads⟩ := reads_of_readsWhole rule.readsWhole_sampleText
  refine ⟨?_, _, pieces, hReads⟩
  revert h
  cases rule <;> decide

section Lexemes

/-- A rule is read again in front of all texts that fulfil its need. -/
private abbrev IsResumable (rule : Rule) : Prop :=
  IsResumed filterGrammar Rule.isQuoted Rule.isAwaited Rule.need rule

private theorem isResumable_of_detaches
    (hQuiet : rule.kind = .atomic ∨ rule.body.within Rule.isQuoted = true)
    (hConsumes : rule.consuming = true)
    (h : ∀ bound, Detaches filterGrammar bound (.rule rule) rule.need) : IsResumable rule := by
  refine .leaf hQuiet fun length other text rest behind pieces hReads hGap hBehind hNeed => ?_
  have hMore := h text.length other (Nat.le_refl _) hGap hReads hBehind hNeed
  have hStops : StopsAt isGap text := IsBehindGap.stopsAt hGap
  rw [hReads.text_eq] at hStops
  have hTaken := filterGrammar_ranked.textOf_ne_nil hReads hConsumes
  have hSame : Mode.initial.behindGap isGap (Piece.textOf pieces ++ behind) =
      Piece.textOf pieces ++ behind := isBehindGap_self (hStops.append_of_ne_nil hTaken behind)
  have hGoes := Goes.of_reads hMore
  rw [← hSame] at hGoes
  exact hGoes

private theorem isResumable_endOfInput : IsResumable .endOfInput := by
  refine .leaf (.inr rfl) fun length other text rest behind pieces hReads _ _ hNeed => ?_
  have hBehind : Mode.initial.behindGap isGap behind = [] := hNeed
  obtain ⟨parts, hParts, rfl⟩ := hReads.of_rule
  obtain ⟨rfl, -, -⟩ := hParts.of_atEnd
  change Goes filterGrammar other _ (Mode.initial.behindGap isGap behind)
    (Mode.initial.behindGap isGap behind)
  rw [hBehind]
  exact (Accepts.normal .atEnd rfl rfl).goes

end Lexemes

section Beginnings

variable {mode : Mode}

variable {word : String}

private theorem begins_keyword (hKind : rule.kind = .atomic)
    (hBody : rule.body = Rule.wholeWord word) (hWord : isKeyword word = true) :
    Begins filterGrammar .initial (.rule rule) (firstWord · = word.toList) := by
  intro length text rest pieces hReads
  have hBody : filterGrammar.body rule = Rule.wholeWord word := hBody
  obtain ⟨taken, hTakes, -⟩ := (Reads.rule_atomic hKind rfl).1 hReads
  rw [hBody] at hTakes
  exact ((takes_wholeWord_iff hWord).1 hTakes).1

private theorem refuses_keyword (hKind : rule.kind = .atomic)
    (hBody : rule.body = Rule.wholeWord word) (hWord : isKeyword word = true)
    (hPlain : isPlainRule rule = true) (h : firstWord text ≠ word.toList) (length : Nat) :
    Refuses filterGrammar length (.rule rule) mode text := by
  refine .of_fails ((takes_or_fails hPlain length text).resolve_left ?_) hKind
  rintro ⟨_, _, hTakes⟩
  have hBody : filterGrammar.body rule = Rule.wholeWord word := hBody
  rw [takes_rule, hBody] at hTakes
  exact h ((takes_wholeWord_iff hWord).1 hTakes).1

private theorem need_disjunction (h : StopsAt isWordPart text) : Rule.disjunction.need text := by
  have hFirst : firstWord text = [] :=
    firstWord_eq_nil (h.mono fun c hc => by rw [isWordPart, hc, Bool.true_or])
  refine ⟨h.mono fun c hc => by rw [isWordPart, hc, Bool.or_true], ?_, ?_⟩
  · rw [hFirst]
    decide
  · rw [hFirst]
    decide

private theorem stopsAt_of_gap {p : Char → Bool}
    (hClass : (p ' ' || p '\t' || p '\r' || p '\n') = false)
    (h : Mode.initial.behindGap isGap text ≠ text) : StopsAt p text := by
  cases text with
  | nil => trivial
  | cons c text =>
    refine Bool.eq_false_iff.2 fun hc => h ?_
    exact isBehindGap_self (isGap_eq_false hClass hc)

end Beginnings

section Rules

/-- An expression is read again in front of all texts that fulfil a need. -/
private abbrev Resumable (expr : Expr Rule) (need : List Char → Prop) : Prop :=
  Resumes filterGrammar Rule.isAwaited Rule.need (.once expr) need

private theorem resumable_rule (hRule : rule.isAwaited = true) (hNeed : ∀ text, rule.need text) :
    Resumable (.rule rule) need :=
  .rule hRule fun text _ => hNeed text

private theorem resumable_column : Resumable Rule.column.body Rule.column.need := by
  have hQuoted : Resumable (.seq (.rule .column) (.rule .backtick)) Rule.column.need :=
    .seq (.rule rfl fun _ => id) (resumable_rule rfl fun _ => trivial)
      (Begins.guards (.rule (.literal fun _ => rfl)))
  exact .choice (.seq (resumable_rule rfl fun _ => trivial) hQuoted .true)
    (.rule rfl fun _ => id) excludes_name_backtick

private theorem resumable_operand : Resumable Rule.operand.body Rule.operand.need :=
  .choice (resumable_rule rfl fun _ => trivial)
    (.choice (resumable_rule rfl fun _ => trivial) (.rule rfl fun _ => id) excludes_column_string)
    excludes_operand_number

private theorem resumable_literal : Resumable Rule.literal.body Rule.literal.need :=
  .choice (resumable_rule rfl fun _ => trivial) (resumable_rule rfl fun _ => trivial)
    excludes_string_number

private theorem refuses_comma (h : StopsAt (· = ',') text) (length : Nat) :
    Refuses filterGrammar length (.rule .comma) .initial text := by
  have hFails : filterGrammar.Fails length (.literal ",") text := (fails_character ',' rfl).2 h
  exact .of_body (.literal (fails_literal.1 hFails))

private theorem resumable_literalList : Resumable Rule.literalList.body Rule.literalList.need := by
  have hMore : Resumable (.seq (.rule .comma) (.rule .literal)) fun _ => True :=
    .seq (resumable_rule rfl fun _ => trivial) (resumable_rule rfl fun _ => trivial) .true
  have hMany : Resumable (.many (.seq (.rule .comma) (.rule .literal))) (StopsAt (· = ',')) :=
    .many (.again hMore (fun text hText length => .seqFirst (refuses_comma hText length)) .true)
  have hEnd : Resumable (.seq (.many (.seq (.rule .comma) (.rule .literal))) (.rule .rightParen))
      fun _ => True :=
    .seq hMany (resumable_rule rfl fun _ => trivial) (Begins.guards (.rule (.literal fun _ => rfl)))
  exact .seq (resumable_rule rfl fun _ => trivial)
    (.seq (resumable_rule rfl fun _ => trivial) hEnd .true) .true

private theorem resumable_behind_column {second : Expr Rule} (hSecond : Resumable second need)
    (hBegins : Begins filterGrammar .initial second (StopsAt isSign)) :
    Resumable (.seq (.rule .column) second) need :=
  .seq (.rule rfl fun _ => id) hSecond hBegins.guards

private theorem resumable_comparison : Resumable Rule.comparison.body Rule.comparison.need :=
  resumable_behind_column
    (.seq (resumable_rule rfl fun _ => trivial) (.rule rfl fun _ => id) .true)
    (.seq begins_comparisonSymbol)

private theorem resumable_nullCheck : Resumable Rule.nullCheck.body Rule.nullCheck.need :=
  resumable_behind_column
    (.choice (resumable_rule rfl fun _ => trivial) (resumable_rule rfl fun _ => trivial)
      excludes_isNull_isNotNull)
    (.choice (.rule (.seq (begins_word rfl (by decide))))
      (.rule (.seq (begins_word rfl (by decide)))))

private theorem resumable_membership (negated : Bool) :
    Resumable (membershipRule negated).body (membershipRule negated).need := by
  cases negated <;> exact resumable_behind_column
    (.seq (resumable_rule rfl fun _ => trivial) (resumable_rule rfl fun _ => trivial) .true)
    (.seq (.rule (.seq (begins_word rfl (by decide)))))

private theorem resumable_condition : Resumable Rule.condition.body Rule.condition.need :=
  .choice (resumable_rule rfl fun _ => trivial)
    (.choice (resumable_rule rfl fun _ => trivial)
      (.choice (resumable_rule rfl fun _ => trivial) (.rule rfl fun _ => id)
        excludes_comparison_inList)
      excludes_others_notInList)
    excludes_others_nullCheck

private theorem resumable_negation : Resumable Rule.negation.body Rule.negation.need :=
  .seq (resumable_rule rfl fun _ => trivial) (.rule rfl fun _ => id) .true

private theorem resumable_group : Resumable Rule.group.body Rule.group.need :=
  .seq (resumable_rule rfl fun _ => trivial)
    (.seq (.rule rfl fun _ => id) (resumable_rule rfl fun _ => trivial)
      (Begins.guards (.rule (.literal fun _ => need_disjunction rfl)))) .true

private theorem resumable_factor : Resumable Rule.factor.body Rule.factor.need :=
  .choice (resumable_rule rfl fun _ => trivial)
    (.choice (.rule rfl fun _ => id) (.rule rfl fun _ => id) excludes_condition_negation)
    excludes_simpleFactor_group

private theorem resumable_chain (connective : Connective) :
    Resumable connective.chainRule.body connective.chainRule.need := by
  have hRefuses (text : List Char) (hNeed : connective.chainRule.need text) (length : Nat) :
      Refuses filterGrammar length (.rule connective.keyword) .initial text := by
    cases connective with
    | and => exact refuses_keyword rfl rfl rfl rfl hNeed.2 length
    | or => exact refuses_keyword rfl rfl rfl rfl hNeed.2.2 length
  have hBegins : Begins filterGrammar .initial (.rule connective.keyword)
      connective.operandRule.need := by
    have hSign : Begins filterGrammar .initial (.rule connective.keyword) (StopsAt isSign) := by
      cases connective <;> exact .rule (.seq (begins_word rfl (by decide)))
    cases connective with
    | and => exact hSign
    | or =>
      refine fun _ _ _ _ hReads => ⟨hSign hReads, ?_⟩
      rw [begins_keyword rfl rfl rfl hReads]
      decide
  have hDone (text : List Char) (hNeed : connective.chainRule.need text) :
      connective.operandRule.need text := by
    cases connective with
    | and => exact hNeed.1
    | or => exact ⟨hNeed.1, hNeed.2.1⟩
  have hGap (text : List Char) (hText : Mode.initial.behindGap isGap text ≠ text) :
      connective.operandRule.need text := by
    have hNeed := need_disjunction (stopsAt_of_gap rfl hText)
    cases connective with
    | and => exact hNeed.1
    | or => exact ⟨hNeed.1, hNeed.2.1⟩
  have hFurther : Resumable (furtherOperand connective) connective.operandRule.need := by
    cases connective <;>
      exact .seq (resumable_rule rfl fun _ => trivial) (.rule rfl fun _ => id) .true
  have hOperand : Resumable (.rule connective.operandRule) connective.operandRule.need := by
    cases connective <;> exact .rule rfl fun _ => id
  rw [Connective.body_chainRule]
  exact .seq hOperand
    (.many (.again hFurther (fun text hNeed length => .seqFirst (hRefuses text hNeed length))
      (hBegins.seq.guards_again hDone hGap)))
    (hBegins.seq.guards_many hDone hGap)

private theorem isResumable (h : rule.isAwaited = true) : IsResumable rule := by
  cases rule
  case endOfInput => exact isResumable_endOfInput
  case name => exact isResumable_of_detaches (.inl rfl) rfl fun _ => detaches_name
  case number => exact isResumable_of_detaches (.inl rfl) rfl fun _ => detaches_number
  case comparisonSymbol =>
    exact isResumable_of_detaches (.inl rfl) rfl fun _ => detaches_comparisonSymbol
  case string => exact isResumable_of_detaches (.inr rfl) rfl fun _ => detaches_string
  case keywordAnd | keywordOr | keywordNot | keywordIn =>
    exact isResumable_of_detaches (.inl rfl) rfl fun _ =>
      @detaches_phrase _ _ _ _ [] rfl rfl rfl rfl
  case keywordNotIn | isNull =>
    exact isResumable_of_detaches (.inl rfl) rfl fun _ =>
      @detaches_phrase _ _ _ _ [_] rfl rfl rfl rfl
  case isNotNull =>
    exact isResumable_of_detaches (.inl rfl) rfl fun _ =>
      @detaches_phrase _ _ _ _ [_, _] rfl rfl rfl rfl
  case leftParen | rightParen | comma | backtick =>
    exact isResumable_of_detaches (.inr rfl) rfl fun _ => detaches_mark rfl
  case disjunction => exact .joined rfl (resumable_chain .or)
  case conjunction => exact .joined rfl (resumable_chain .and)
  case factor => exact .joined rfl resumable_factor
  case group => exact .joined rfl resumable_group
  case negation => exact .joined rfl resumable_negation
  case condition => exact .joined rfl resumable_condition
  case comparison => exact .joined rfl resumable_comparison
  case nullCheck => exact .joined rfl resumable_nullCheck
  case inList => exact .joined rfl (resumable_membership false)
  case notInList => exact .joined rfl (resumable_membership true)
  case operand => exact .joined rfl resumable_operand
  case literalList => exact .joined rfl resumable_literalList
  case literal => exact .joined rfl resumable_literal
  case column => exact .joined rfl resumable_column
  all_goals cases h

end Rules

section Calls

variable {whole : List Char} {calls : List (Call Rule)} {call : Call Rule}

def IsFilterText (text : List Char) : Prop := (filterGrammar.parse .filter text).isOk = true

/-- A call that waits for a part of a filter. -/
private abbrev IsWaiting (whole : List Char) (call : Call Rule) : Prop :=
  Awaits filterGrammar Rule.isAwaited Rule.need IsFilterText whole call

def filterBody : Expr Rule := .seq (.rule .disjunction) (.rule .endOfInput)

private theorem isWaiting_filterBody (text : List Char) :
    IsWaiting text ⟨.once filterBody, .initial, Mode.initial.behindGap isGap text⟩ := by
  have hTask : Resumable filterBody Rule.endOfInput.need :=
    .seq (.rule rfl fun _ => id) (.rule rfl fun _ => id)
      (Begins.guards (.rule (.atEnd (need_disjunction trivial))))
  refine ⟨rfl, Mode.behindGap_idem .., Mode.initial.gap isGap text, [], Rule.endOfInput.need,
    (Mode.gap_append_behindGap ..).symm, hTask, nofun, rfl, fun behind _ hGoes => ?_⟩
  have hStart : Accepts filterGrammar (Mode.initial.gap isGap text ++ behind).length .atStart
      .initial (Mode.initial.gap isGap text ++ behind) (Mode.initial.behindGap isGap behind)
      (· = []) := by
    rw [← Mode.behindGap_gap_append .initial isGap text behind]
    exact .atStart rfl
  have hFilter : Accepts filterGrammar (Mode.initial.gap isGap text ++ behind).length
      (.rule .filter) .initial (Mode.initial.gap isGap text ++ behind) [] _ :=
    .normal (hStart.seq hGoes) rfl rfl
  obtain ⟨_, last, hMatches, -, start, stop, parts, rfl, -⟩ := hFilter (.ofText _) rfl
  have hParse := IsFilterMatch.parse_eq ⟨last, hMatches⟩
  exact congrArg Except.isOk hParse

private theorem isWaiting_of_inner {outer inner : Call Rule} {length : Nat}
    (h : IsWaiting whole outer ∨ outer.IsQuiet Rule.isQuoted)
    (hInner : Inner filterGrammar length outer inner) :
    IsWaiting whole inner ∨ inner.IsQuiet Rule.isQuoted := by
  rcases h with hWaiting | hQuiet
  · exact hWaiting.of_inner (fun _ => isResumable) rfl (fun _ => isWholeText_sampleText) hInner
  · refine .inr (hInner.isQuiet (fun rule hRule => ?_) hQuiet)
    revert hRule
    cases rule <;> decide

private theorem isWaiting_of_isStack_filterBody
    (h : IsStack filterGrammar whole.length
      ⟨.once filterBody, .initial, Mode.initial.behindGap isGap whole⟩ (call :: calls)) :
    IsWaiting whole call ∨ call.IsQuiet Rule.isQuoted :=
  h.passes (.inl (isWaiting_filterBody whole)) isWaiting_of_inner

private theorem isWaiting_of_isStack
    (h : IsStack filterGrammar whole.length ⟨.once (.rule .filter), .initial, whole⟩
      (call :: calls)) :
    call = ⟨.once (.rule .filter), .initial, whole⟩ ∨
      call = ⟨.once (filterGrammar.body .filter), .initial, whole⟩ ∨
      IsWaiting whole call ∨ call.IsQuiet Rule.isQuoted := by
  -- The filter is called for first, then its body and what that begins with. Each other call waits
  -- for a part of the filter, or no failure in it is noted.
  refine h.passes (.inl rfl) fun hOuter hInner => .inr ?_
  rcases hOuter with rfl | rfl | hOuter
  · cases hInner
    exact .inl rfl
  · right
    cases hInner with
    | seqFirst => exact .inr (.inr rfl)
    | seqSecond _ hStart =>
      rw [hStart.of_atStart.2]
      exact .inl (isWaiting_filterBody whole)
  · exact .inr (isWaiting_of_inner hOuter hInner)

/-- Whether a filter may end behind a text, or go on there with a text for a rule, with or without
a gap in between. -/
def Rule.MayFollow (before : List Char) : Rule → Prop
  | .endOfInput => IsFilterText before
  | rule => ∃ gap word behind, (∀ c ∈ gap, isGap c = true) ∧ rule.readsWhole word = true ∧
      IsFilterText (before ++ gap ++ word ++ behind)

private theorem mayFollow_of_sample {before gap behind : List Char}
    (hGap : ∀ c ∈ gap, isGap c = true) (hRule : rule ≠ .endOfInput)
    (h : IsFilterText (before ++ gap ++ rule.sampleText.toList ++ behind)) :
    rule.MayFollow before := by
  have hWord := rule.readsWhole_sampleText
  cases rule
  case endOfInput => exact absurd rfl hRule
  all_goals exact ⟨gap, _, behind, hGap, hWord, h⟩

private theorem isFilterText_of_isWaiting {mode : Mode}
    (h : IsWaiting whole ⟨.once (.rule .endOfInput), mode, text⟩) :
    ∃ before, whole = before ++ text ∧ IsFilterText before := by
  obtain ⟨-, -, before, rest, need, hText, hTask, -, hNeed, hGoal⟩ := h
  have hEnd : Mode.initial.behindGap filterGrammar.isBlank rest = [] := by
    cases hTask with
    | rule _ hImplies => exact hImplies _ hNeed
  have hDone := hGoal [] nofun
  rw [hEnd, List.append_nil] at hDone
  exact ⟨before, hText, hDone (Accepts.normal .atEnd rfl rfl).goes⟩

private theorem not_isQuiet_of_isNoted {mode : Mode} {length : Nat}
    (hShows : filterGrammar.shows rule mode = true)
    (hFails : filterGrammar.Reads length (.once (.rule rule)) mode text none) :
    ¬Call.IsQuiet Rule.isQuoted ⟨.once (.rule rule), mode, text⟩ := by
  rintro (hMode | hRule)
  · have hMode : mode.records = false := hMode
    simp [shows, hMode] at hShows
  · rw [Reads.rule_none] at hFails
    cases rule
    case doubleQuoted | singleQuoted => cases hFails
    all_goals cases hRule

/-- A rule that was called for behind the beginning of a text and failed may follow there. -/
theorem mayFollow_of_isNoted
    (h : IsNoted filterGrammar whole.length ⟨.once (.rule .filter), .initial, whole⟩ rule text) :
    ∃ before, whole = before ++ text ∧ rule.MayFollow before := by
  obtain ⟨mode, calls, hShows, hStack, hFails⟩ := h
  rcases isWaiting_of_isStack hStack with hRoot | hBody | hWaiting | hQuiet
  · cases hRoot
    have hSample : (filterGrammar.parse .filter
        ([] ++ [] ++ Rule.filter.sampleText.toList ++ [])).isOk = true := by decide +kernel
    exact ⟨[], rfl, mayFollow_of_sample (List.forall_mem_nil _) (by decide) hSample⟩
  · cases hBody
  · by_cases hRule : rule = .endOfInput
    · subst hRule
      exact isFilterText_of_isWaiting hWaiting
    · obtain ⟨-, before, rest, hText, hSample⟩ :=
        hWaiting.exists_goal (fun _ => isResumable) rfl fun _ => isWholeText_sampleText
      have hText' : before ++ [' '] ++ rule.sampleText.toList ++ rest =
          before ++ ' ' :: (rule.sampleText.toList ++ rest) := by simp
      rw [← hText'] at hSample
      exact ⟨before, hText, mayFollow_of_sample (List.all_eq_true.1 rfl) hRule hSample⟩
  · exact absurd hQuiet (not_isQuiet_of_isNoted hShows hFails)

/-- What is called for behind the beginning of a filter is called for behind a gap. -/
theorem stopsAt_gap_of_isNoted
    (h : IsNoted filterGrammar whole.length
      ⟨.once filterBody, .initial, Mode.initial.behindGap isGap whole⟩ rule text) :
    StopsAt isGap text := by
  obtain ⟨mode, calls, hShows, hStack, hFails⟩ := h
  rcases isWaiting_of_isStack_filterBody hStack with ⟨-, hPlace, -⟩ | hQuiet
  · exact IsBehindGap.stopsAt hPlace
  · exact absurd hQuiet (not_isQuiet_of_isNoted hShows hFails)

end Calls

end RowFilter
