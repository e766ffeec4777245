import RowFilter.Proofs.Syntax.Keywords

/-! Printed conditions are read back. The column comes first in all of them,
so what follows it decides which kind of condition is read. -/

namespace RowFilter

open Grammar Text

variable {length : Nat} {name behind rest tail : List Char} {quote : String → Quote}

/-- A single match that builds a filter, up to spans. -/
def BuildsFilter (filter : Filter) (nodes : List (Node Rule)) : Prop :=
  ∃ node built, nodes = [node] ∧ Filter.isDelimiter node.rule = false ∧
    node.rule ≠ .keywordNot ∧ Filter.ofNode node = .ok built ∧
    built.eraseSpans = filter.eraseSpans

/-- The match of a condition is neither a delimiter nor the word `NOT`. -/
theorem buildsFilter_condition {rule : Rule} {start stop : Cursor} {parts : List (Node Rule)}
    {built c : Condition} (span : Span)
    (hRule : rule ∈ [Rule.comparison, .nullCheck, .inList, .notInList])
    (hNode : Filter.ofNode (.node rule start stop parts) =
      Filter.ofCondition (.node rule start stop parts) (.ok built))
    (hErased : built.eraseSpans = c.eraseSpans) :
    BuildsFilter (.condition c span) [.node rule start stop parts] := by
  have hKind : Filter.isDelimiter rule = false ∧ rule ≠ .keywordNot := by
    simp only [List.mem_cons, List.not_mem_nil, or_false] at hRule
    rcases hRule with rfl | rfl | rfl | rfl <;> decide
  exact ⟨_, _, rfl, hKind.1, hKind.2, hNode, congrArg (Filter.condition · .none) hErased⟩

section Columns

variable (hName : Rule.name.readsWhole name = true) (hTail : StopsAt isGap tail)

include hName hTail

/-- The column of a condition is read up to the blank behind it. -/
theorem accepts_column_blank :
    Accepts filterGrammar length (.rule .column) .initial (name ++ ' ' :: tail) tail
      (IsWord .name name) :=
  accepts_column hName rfl (isBehindGap_blank hTail)

/-- A condition is not read if what follows its column is not. -/
theorem refuses_behind_column {rule : Rule} {others : Expr Rule}
    (hBody : rule.body = .seq (.rule .column) others) (hKind : rule.kind = .normal)
    (h : Refuses filterGrammar length others .initial tail) :
    Refuses filterGrammar length (.rule rule) .initial (name ++ ' ' :: tail) := by
  refine .of_body ?_
  change Refuses filterGrammar length rule.body (rule.kind.inside .initial) (name ++ ' ' :: tail)
  rw [hBody, hKind]
  exact .seqSecond (accepts_column_blank hName hTail) h

end Columns

section NullChecks

def nullTest (negated : Bool) : Rule :=
  if negated then .isNotNull else .isNull

/-- What follows the column of a null check. -/
def nullTestWords (negated : Bool) : List Char :=
  (if negated then "IS NOT NULL" else "IS NULL").toList

theorem accepts_nullTest (negated : Bool) (hBehind : StopsAt (!isDelimiter ·) behind)
    (hGap : IsBehindGap behind rest) :
    Accepts filterGrammar length (.choice (.rule .isNotNull) (.rule .isNull)) .initial
      (nullTestWords negated ++ behind) rest
      (IsWord (nullTest negated) (nullTestWords negated)) := by
  cases negated with
  | false => exact .choiceSecond refuses_isNotNull (accepts_isNull hBehind hGap)
  | true => exact .choiceFirst (accepts_isNotNull hBehind hGap)

/-- A printed null check is read back. -/
theorem accepts_nullCheck {column : Column} {negated : Bool} {span : Span}
    (hColumn : column.IsSpellable) (hBehind : StopsAt (!isDelimiter ·) behind)
    (hGap : IsBehindGap behind rest) :
    Accepts filterGrammar length (.rule .condition) .initial
      ((Condition.nullCheck column negated).source quote ++ behind) rest
      (BuildsFilter (.condition (.nullCheck column negated) span)) := by
  have hText : (Condition.nullCheck column negated).source quote ++ behind =
      column.name.toList ++ ' ' :: (nullTestWords negated ++ behind) := by
    simp [Condition.source, nullTestWords]
  have hTail : StopsAt isGap (nullTestWords negated ++ behind) := by
    cases negated <;> rfl
  have hCheck := (@accepts_column_blank length _ _ hColumn hTail).seq
    (accepts_nullTest negated hBehind hGap)
  rw [hText]
  refine .silent (.choiceFirst ((Accepts.normal hCheck rfl rfl).mono ?_)) rfl
  rintro _ ⟨start, stop, _, rfl, _, _, rfl, ⟨node, rfl, -, -, hName⟩, ⟨test, rfl, hTest, -, -⟩⟩
  have hNegated : decide (test.rule = .isNotNull) = negated := by
    rw [hTest]
    cases negated <;> rfl
  have hNode : Condition.nullCheckOf (.node .nullCheck start stop [node, test]) =
      .ok (.nullCheck (.ofNode node) negated) := by
    simp only [Condition.nullCheckOf, Node.parts, hNegated]
  apply buildsFilter_condition span (by decide) (by rw [Filter.ofNode]; exact congrArg _ hNode)
  simp only [Condition.eraseSpans, eraseSpans_ofNode hName]

end NullChecks

def membershipRule (negated : Bool) : Rule :=
  if negated then .notInList else .inList

def membershipKeyword (negated : Bool) : Rule :=
  if negated then .keywordNotIn else .keywordIn

def membershipWords (negated : Bool) : List Char :=
  (if negated then "NOT IN" else "IN").toList

section Refusals

variable (hName : Rule.name.readsWhole name = true) (hTail : StopsAt isGap tail)

include hName hTail

/-- A null check is not read where the word `IS` does not stand. -/
theorem refuses_nullCheck (h : takeAll? ("is".toList.map sameLetter) tail = none) :
    Refuses filterGrammar length (.rule .nullCheck) .initial (name ++ ' ' :: tail) :=
  refuses_behind_column hName hTail rfl rfl
    (.choice (refuses_word rfl rfl h) (refuses_word rfl rfl h))

/-- A condition of membership is not read where its first word does not stand. -/
theorem refuses_membership (negated : Bool)
    (h : takeAll? ((if negated then "not" else "in").toList.map sameLetter) tail = none) :
    Refuses filterGrammar length (.rule (membershipRule negated)) .initial (name ++ ' ' :: tail) := by
  cases negated <;> exact refuses_behind_column hName hTail rfl rfl (.seqFirst (refuses_word rfl rfl h))

end Refusals

section Memberships

theorem accepts_membershipKeyword (negated : Bool) (hBehind : StopsAt (!isDelimiter ·) behind)
    (hGap : IsBehindGap behind rest) :
    Accepts filterGrammar length (.rule (membershipKeyword negated)) .initial
      (membershipWords negated ++ behind) rest
      (IsWord (membershipKeyword negated) (membershipWords negated)) := by
  cases negated with
  | false => exact accepts_keywordIn hBehind hGap
  | true => exact accepts_keywordNotIn hBehind hGap

private theorem body_membershipRule (negated : Bool) :
    (membershipRule negated).body = Rule.sequence (.rule .column)
      [.rule (membershipKeyword negated), .rule .literalList] := by
  cases negated <;> rfl

private theorem ofNode_membership {negated : Bool} {start stop : Cursor}
    {parts : List (Node Rule)} :
    Filter.ofNode (.node (membershipRule negated) start stop parts) =
      Filter.ofCondition (.node (membershipRule negated) start stop parts)
        (Condition.membershipOf negated (.node (membershipRule negated) start stop parts)) := by
  cases negated <;> exact Filter.ofNode.eq_def _

private theorem accepts_condition_of_membership {negated : Bool} {P : List (Node Rule) → Prop}
    (hName : Rule.name.readsWhole name = true)
    (h : Accepts filterGrammar length (.rule (membershipRule negated)) .initial
      (name ++ ' ' :: (membershipWords negated ++ behind)) rest P) :
    Accepts filterGrammar length (.rule .condition) .initial
      (name ++ ' ' :: (membershipWords negated ++ behind)) rest P := by
  cases negated with
  | false =>
    have hNegated : Refuses filterGrammar length (.rule .notInList) .initial
        (name ++ ' ' :: (membershipWords false ++ behind)) :=
      @refuses_membership length name (membershipWords false ++ behind) hName rfl true rfl
    exact .silent (.choiceSecond (refuses_nullCheck hName rfl rfl)
      (.choiceSecond hNegated (.choiceFirst h))) rfl
  | true => exact .silent (.choiceSecond (refuses_nullCheck hName rfl rfl) (.choiceFirst h)) rfl

/-- What the parts of a condition of membership show. -/
private def ShowsMembership (column : Column) (negated : Bool) (values : List Literal) :
    List (Node Rule) → Prop :=
  Joined (IsWord .name column.name.toList)
    (Joined (IsWord (membershipKeyword negated) (membershipWords negated))
      (IsShown .literalList fun parts => literalsOf parts = .ok values))

private theorem buildsFilter_membership {column : Column} {negated : Bool} {values : List Literal}
    {nodes : List (Node Rule)} (span : Span)
    (h : IsShown (membershipRule negated) (ShowsMembership column negated values) nodes) :
    BuildsFilter (.condition (.membership column negated values) span) nodes := by
  obtain ⟨start, stop, _, rfl, _, _, rfl, ⟨node, rfl, -, -, hName⟩, _, _, rfl,
    ⟨keyword, rfl, hKeyword, -, -⟩, ⟨valuesStart, valuesStop, parts, rfl, hParts⟩⟩ := h
  have hNotValues : ¬(keyword.rule = .literalList) := by
    rw [hKeyword]
    cases negated <;> decide
  have hNode : Condition.membershipOf negated (.node (membershipRule negated) start stop
      [node, keyword, .node .literalList valuesStart valuesStop parts]) =
      .ok (.membership (.ofNode node) negated values) := by
    simp only [Condition.membershipOf, Node.parts, List.find?, hNotValues, decide_false]
    exact congrArg (Except.map _) hParts
  apply buildsFilter_condition span (by cases negated <;> decide)
    (ofNode_membership.trans (congrArg _ hNode))
  simp only [Condition.eraseSpans, eraseSpans_ofNode hName]

/-- A printed membership condition is read back. -/
theorem accepts_membership {column : Column} {negated : Bool} {values : List Literal} {span : Span}
    (hColumn : column.IsSpellable) (hNonempty : values ≠ [])
    (hRegular : ∀ value ∈ values, value.IsRegular)
    (hSpellable : ∀ value ∈ values, value.IsSpellable quote) (hGap : IsBehindGap behind rest) :
    Accepts filterGrammar length (.rule .condition) .initial
      ((Condition.membership column negated values).source quote ++ behind) rest
      (BuildsFilter (.condition (.membership column negated values) span)) := by
  have hList : Accepts filterGrammar length (.rule .literalList) .initial
      (enclosed true ([',', ' '].intercalate (values.map (Literal.source quote))) ++ behind) rest
      (IsShown .literalList fun parts => literalsOf parts = .ok values) :=
    accepts_literalList hNonempty hRegular hSpellable hGap
  generalize hValues : enclosed true ([',', ' '].intercalate
    (values.map (Literal.source quote))) = text at hList
  have hText : (Condition.membership column negated values).source quote ++ behind =
      column.name.toList ++ ' ' :: (membershipWords negated ++ ' ' :: (text ++ behind)) := by
    simp [Condition.source, membershipWords, hValues]
  have hTail : StopsAt isGap (membershipWords negated ++ ' ' :: (text ++ behind)) := by
    cases negated <;> rfl
  have hOpen : StopsAt isGap (text ++ behind) := by
    rw [← hValues]
    rfl
  have hKeyword : Accepts filterGrammar length (.rule (membershipKeyword negated)) .initial
      (membershipWords negated ++ ' ' :: (text ++ behind)) (text ++ behind)
      (IsWord (membershipKeyword negated) (membershipWords negated)) :=
    accepts_membershipKeyword negated (stopsAt_blank _) (isBehindGap_blank hOpen)
  have hBody : Accepts filterGrammar length (membershipRule negated).body .initial
      (column.name.toList ++ ' ' :: (membershipWords negated ++ ' ' :: (text ++ behind))) rest
      (ShowsMembership column negated values) := by
    rw [body_membershipRule]
    exact (accepts_column_blank hColumn hTail).seq (hKeyword.seq hList)
  have hKind : (membershipRule negated).kind = .normal := by cases negated <;> rfl
  rw [hText]
  apply accepts_condition_of_membership hColumn
  exact (Accepts.normal hBody hKind rfl).mono fun _ => buildsFilter_membership span

end Memberships

section Comparisons

/-- A symbol is tried behind the symbols that it could be the beginning of. -/
theorem takes_symbol (operator : Comparison) :
    filterGrammar.Takes length Rule.comparisonSymbol.body
      (operator.symbol.toList ++ ' ' :: behind) operator.symbol.toList (' ' :: behind) := by
  have hTaken (word : String) : filterGrammar.Takes length (.literal word)
      (word.toList ++ ' ' :: behind) word.toList (' ' :: behind) := takes_literal.2 ⟨rfl, rfl⟩
  have hNext {word : String} {others : Expr Rule} {text taken : List Char}
      (h : takeAll? (word.toList.map fun a b => a = b) text = none)
      (hOthers : filterGrammar.Takes length others text taken (' ' :: behind)) :
      filterGrammar.Takes length (.choice (.literal word) others) text taken (' ' :: behind) :=
    takes_choice.2 (.inr ⟨fails_literal.2 h, hOthers⟩)
  cases operator with
  | notEqual => exact takes_choice.2 (.inl (hTaken "!="))
  | greaterOrEqual => exact hNext rfl (takes_choice.2 (.inl (hTaken ">=")))
  | lessOrEqual => exact hNext rfl (hNext rfl (takes_choice.2 (.inl (hTaken "<="))))
  | less => exact hNext rfl (hNext rfl (hNext rfl (takes_choice.2 (.inl (hTaken "<")))))
  | greater =>
    exact hNext rfl (hNext rfl (hNext rfl (hNext rfl (takes_choice.2 (.inl (hTaken ">"))))))
  | equal => exact hNext rfl (hNext rfl (hNext rfl (hNext rfl (hNext rfl (hTaken "=")))))

private theorem takeAll?_symbol (operator : Comparison) {word : String}
    (hWord : word ∈ ["is", "not", "in"]) :
    takeAll? (word.toList.map sameLetter) (operator.symbol.toList ++ ' ' :: behind) = none := by
  simp only [List.mem_cons, List.not_mem_nil, or_false] at hWord
  rcases hWord with rfl | rfl | rfl <;> cases operator <;> rfl

/-- What the parts of a comparison show. -/
private def ShowsComparison (left : Column) (operator : Comparison) (right : Operand) :
    List (Node Rule) → Prop :=
  Joined (IsWord .name left.name.toList)
    (Joined (IsWord .comparisonSymbol operator.symbol.toList) (BuildsOperand right))

private theorem buildsFilter_comparison {left : Column} {operator : Comparison} {right : Operand}
    {nodes : List (Node Rule)} (span : Span)
    (h : IsShown .comparison (ShowsComparison left operator right) nodes) :
    BuildsFilter (.condition (.comparison left operator right) span) nodes := by
  obtain ⟨start, stop, _, rfl, _, _, rfl, ⟨node, rfl, -, -, hName⟩, _, _, rfl,
    ⟨symbol, rfl, -, -, hSymbol⟩, ⟨operandNode, operand, rfl, hBuilds, hErased⟩⟩ := h
  have hOperator : Comparison.ofSymbol? symbol.text = some operator := by
    rw [hSymbol, String.ofList_toList, Comparison.ofSymbol?_symbol]
  have hNode : Condition.comparisonOf (.node .comparison start stop [node, symbol, operandNode]) =
      .ok (.comparison (.ofNode node) operator operand) := by
    simp only [Condition.comparisonOf, Node.parts, hOperator]
    exact congrArg (Except.map _) hBuilds
  apply buildsFilter_condition span (by decide)
    (by rw [Filter.ofNode]; exact congrArg _ hNode)
  simp only [Condition.eraseSpans, eraseSpans_ofNode hName, hErased]

/-- A printed comparison is read back. -/
theorem accepts_comparison {left : Column} {operator : Comparison} {right : Operand} {span : Span}
    (hLeft : left.IsSpellable) (hRegular : right.IsRegular) (hSpellable : right.IsSpellable quote)
    (hBehind : StopsAt (!isDelimiter ·) behind) (hGap : IsBehindGap behind rest) :
    Accepts filterGrammar length (.rule .condition) .initial
      ((Condition.comparison left operator right).source quote ++ behind) rest
      (BuildsFilter (.condition (.comparison left operator right) span)) := by
  have hText : (Condition.comparison left operator right).source quote ++ behind =
      left.name.toList ++ ' ' :: (operator.symbol.toList ++ ' ' ::
        (right.source quote ++ behind)) := by
    simp [Condition.source]
  have hTail : StopsAt isGap (operator.symbol.toList ++ ' ' :: (right.source quote ++ behind)) := by
    cases operator <;> rfl
  have hSymbol : Accepts filterGrammar length (.rule .comparisonSymbol) .initial
      (operator.symbol.toList ++ ' ' :: (right.source quote ++ behind))
      (right.source quote ++ behind) (IsWord .comparisonSymbol operator.symbol.toList) :=
    accepts_atomic (takes_rule.2 (takes_symbol operator)) rfl
      (isBehindGap_blank (stopsAt_gap_operand hRegular hSpellable hBehind))
  have hOperand : Accepts filterGrammar length (.rule .operand) .initial
      (right.source quote ++ behind) rest (BuildsOperand right) :=
    accepts_operand hRegular hSpellable hBehind hGap
  have hBody := (accepts_column_blank hLeft hTail).seq (hSymbol.seq hOperand)
  have hComparison := (Accepts.normal hBody rfl rfl).mono fun _ => buildsFilter_comparison span
  have hMembership (negated : Bool) : Refuses filterGrammar length
      (.rule (membershipRule negated)) .initial (left.name.toList ++ ' ' ::
        (operator.symbol.toList ++ ' ' :: (right.source quote ++ behind))) :=
    refuses_membership hLeft hTail negated (takeAll?_symbol _ (by cases negated <;> decide))
  rw [hText]
  exact .silent (.choiceSecond (refuses_nullCheck hLeft hTail (takeAll?_symbol _ (by decide)))
    (.choiceSecond (hMembership true) (.choiceSecond (hMembership false) hComparison))) rfl

end Comparisons

/-- A printed condition is read as the condition. -/
theorem accepts_condition {c : Condition} (span : Span) (hRegular : c.IsRegular)
    (hSpellable : c.IsSpellable quote) (hBehind : StopsAt (!isDelimiter ·) behind)
    (hGap : IsBehindGap behind rest) :
    Accepts filterGrammar length (.rule .condition) .initial (c.source quote ++ behind) rest
      (BuildsFilter (.condition c span)) := by
  cases c with
  | comparison left operator right =>
    exact accepts_comparison hSpellable.1 hRegular hSpellable.2 hBehind hGap
  | nullCheck column negated => exact accepts_nullCheck hSpellable hBehind hGap
  | membership column negated values =>
    exact accepts_membership hSpellable.1 hRegular.1 hRegular.2 hSpellable.2 hGap

/-- A printed condition begins with a name. -/
theorem beginsName_condition {c : Condition} (length : Nat) (hSpellable : c.IsSpellable quote)
    (behind : List Char) : BeginsName length (c.source quote ++ behind) := by
  cases c with
  | comparison left operator right =>
    rw [Condition.source, List.append_assoc]
    exact beginsName length hSpellable.1 rfl
  | nullCheck column negated =>
    rw [Condition.source, List.append_assoc]
    exact beginsName length hSpellable rfl
  | membership column negated values =>
    rw [Condition.source, List.append_assoc]
    exact beginsName length hSpellable.1 rfl

end RowFilter
