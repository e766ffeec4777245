import RowFilter.Proofs.Syntax.Chains
import RowFilter.Proofs.Syntax.Depth
import RowFilter.Proofs.Syntax.Parse

/-! Parsing undoes printing. A printed filter within the limit on nested
parentheses is read as the filter, up to spans. -/

namespace RowFilter

open Grammar Text

variable {length : Nat} {quote : String → Quote} {behind rest : List Char} {filter : Filter}

section Factors

variable {c : Condition} {inner span : Span} (hRegular : c.IsRegular)
  (hSpellable : c.IsSpellable quote)

include hRegular hSpellable

/-- A condition is read where neither a group nor a negation begins. -/
theorem readsOperand_condition :
    ReadsOperand length quote .and (.condition c span) := by
  intro behind rest hBehind hGap _
  have hBegins := beginsName_condition length hSpellable behind
  have hGroup : Refuses filterGrammar length (.rule .group) .initial (c.source quote ++ behind) :=
    .of_body (.seqFirst (.of_body (hBegins.refuses_character rfl rfl)))
  have hNegation : Refuses filterGrammar length (.rule .negation) .initial
      (c.source quote ++ behind) := .of_body (.seqFirst hBegins.refuses_not)
  have hCondition : Accepts filterGrammar length (.rule .condition) .initial
      (c.source quote ++ behind) rest (BuildsFilter (.condition c span)) :=
    accepts_condition span hRegular hSpellable hBehind hGap
  exact .silent (.choiceSecond hGroup (.choiceSecond hNegation
    (hCondition.mono fun _ => BuildsFilter.addsOperand))) rfl

theorem readsOperand_negation :
    ReadsOperand length quote .and (.not (.condition c inner) span) := by
  intro behind rest hBehind hGap _
  have hText : operandSource quote .and (.not (.condition c inner) span) ++ behind =
      "NOT".toList ++ ' ' :: (c.source quote ++ behind) := by
    simp [operandSource, enclosed, Filter.isJoinedBy, Filter.split?, Filter.source]
  have hGroup : Refuses filterGrammar length (.rule .group) .initial
      ("NOT".toList ++ ' ' :: (c.source quote ++ behind)) :=
    .of_body (.seqFirst (refuses_mark rfl rfl (by decide)))
  have hStops := (beginsName_condition 0 hSpellable behind).stopsAt_gap
  have hNot : Accepts filterGrammar length (.rule .keywordNot) .initial
      ("NOT".toList ++ ' ' :: (c.source quote ++ behind)) (c.source quote ++ behind)
      (IsWord .keywordNot "NOT".toList) :=
    accepts_keywordNot (stopsAt_blank _) (isBehindGap_blank hStops)
  have hCondition : Accepts filterGrammar length (.rule .condition) .initial
      (c.source quote ++ behind) rest (BuildsFilter (.condition c inner)) :=
    accepts_condition inner hRegular hSpellable hBehind hGap
  have hNegation : Accepts filterGrammar length (.rule .negation) .initial
      ("NOT".toList ++ ' ' :: (c.source quote ++ behind)) rest
      (IsShown .negation (Joined (IsWord .keywordNot "NOT".toList)
        (BuildsFilter (.condition c inner)))) := .normal (hNot.seq hCondition) rfl rfl
  rw [hText]
  refine .silent (.choiceSecond hGroup (.choiceFirst (hNegation.mono ?_))) rfl
  rintro _ ⟨start, stop, _, rfl, _, _, rfl, ⟨keyword, rfl, hKeyword, -, -⟩,
    ⟨node, built, rfl, -, hRule, hNode, hErased⟩⟩
  have hNegated : Filter.ofNode (.node .negation start stop [keyword, node]) =
      .ok (.not built (.ofNode (.node .negation start stop [keyword, node]))) := by
    rw [Filter.ofNode, Filter.negationOf, if_pos hKeyword, Filter.negationOf, if_neg hRule, hNode]
    rfl
  have hOther : Rule.negation ≠ .keywordNot := by decide
  exact BuildsFilter.addsOperand
    ⟨_, _, rfl, rfl, hOther, hNegated, congrArg (Filter.not · .none) hErased⟩

end Factors

/-- A printed filter is read wherever it may stand. -/
structure IsRead (length : Nat) (quote : String → Quote) (filter : Filter) : Prop where
  factor : ReadsOperand length quote .and filter
  chain : ∀ connective, ReadsChain length quote connective filter

namespace IsRead

variable {left right : Filter} {span : Span}

/-- A filter that is read is read as an operand. -/
theorem operand (h : IsRead length quote filter) (connective : Connective) :
    ReadsOperand length quote connective filter := by
  cases connective with
  | and => exact h.factor
  | or => exact (h.chain .and).readsOperand

/-- What is no chain begins one of either connective. -/
theorem of_factor (h : ReadsOperand length quote .and filter)
    (hAlone : ∀ connective, filter.isJoinedBy connective = false) : IsRead length quote filter := by
  have hAnd := h.readsChain (hAlone .and)
  refine ⟨h, fun connective => ?_⟩
  cases connective with
  | and => exact hAnd
  | or => exact hAnd.readsOperand.readsChain (hAlone .or)

/-- A conjunction that is read as a chain is read as a filter. -/
theorem of_and (h : ReadsChain length quote .and (.and left right span))
    (hSpellable : (Filter.and left right span).IsSpellable quote) :
    IsRead length quote (.and left right span) := by
  have hOr := h.readsOperand.readsChain rfl
  refine ⟨hOr.readsGroup hSpellable rfl, fun connective => ?_⟩
  cases connective with
  | and => exact h
  | or => exact hOr

/-- A disjunction that is read as a chain is read as a filter. -/
theorem of_or (h : ReadsChain length quote .or (.or left right span))
    (hSpellable : (Filter.or left right span).IsSpellable quote) :
    IsRead length quote (.or left right span) := by
  have hFactor := h.readsGroup hSpellable rfl
  refine ⟨hFactor, fun connective => ?_⟩
  cases connective with
  | and => exact hFactor.readsChain rfl
  | or => exact h

end IsRead

/-- The induction is on the filter. Each node is read in the way of its kind,
and in all other ways from there. -/
theorem Filter.IsRegular.isRead (hRegular : filter.IsRegular)
    (hSpellable : filter.IsSpellable quote) : IsRead length quote filter := by
  induction hRegular with
  | condition h =>
    refine .of_factor (readsOperand_condition h (isSpellable_condition.1 hSpellable)) ?_
    intro connective
    cases connective <;> rfl
  | negation h =>
    have hOperand := isSpellable_not.1 hSpellable
    refine .of_factor (readsOperand_negation h (isSpellable_condition.1 hOperand)) ?_
    intro connective
    cases connective <;> rfl
  | @and left right span _ _ ihLeft ihRight =>
    obtain ⟨hLeft, hRight⟩ := isSpellable_and.1 hSpellable
    exact .of_and (((ihLeft hLeft).chain .and).join ((ihRight hRight).operand .and) hRight span)
      hSpellable
  | @or left right span _ _ ihLeft ihRight =>
    obtain ⟨hLeft, hRight⟩ := isSpellable_or.1 hSpellable
    exact .of_or (((ihLeft hLeft).chain .or).join ((ihRight hRight).operand .or) hRight span)
      hSpellable

/-- Reading undoes writing. A regular filter in writing, with each text between
the quotes chosen for it, is read as the filter if its parentheses do not nest
too deeply. -/
theorem Filter.parse_source (hRegular : filter.IsRegular) (hSpellable : filter.IsSpellable quote)
    (hDepth : filter.depth ≤ Nesting.limit) :
    ∃ read, parse (String.ofList (filter.source quote)) = .ok read ∧
      read.eraseSpans = filter.eraseSpans := by
  have hWithin := (isWithinLimit_source hRegular hSpellable).2 hDepth
  have hStops := stopsAt_gap_source hSpellable []
  have hChain : ChainAt (filter.source quote).length .or (filter.source quote ++ []) [] filter :=
    ((hRegular.isRead hSpellable).chain .or).chainAt trivial rfl
  rw [List.append_nil] at hStops hChain
  have hText : (String.ofList (filter.source quote)).toList = filter.source quote :=
    String.toList_ofList
  have hGap : Mode.initial.behindGap isGap (filter.source quote) = filter.source quote :=
    isBehindGap_self hStops
  apply parse_of_chainAt
  · rwa [hText]
  · rwa [hText, hGap]

/-- A filter with all kinds of nodes and with names that look like numbers and keywords. -/
theorem Filter.parse_source_mixed :
    let quote : String → Quote := fun text => if text = "it's" then .double else .single
    let filter := Filter.and
      (.or (.condition (.comparison ⟨"isbn", .none⟩ .less (.literal (.integer (-2)))) .none)
        (.condition (.nullCheck ⟨"5abc", .none⟩ true) .none) .none)
      (.and (.not (.condition (.membership ⟨"a.b", .none⟩ false [.text "it's", .text "("]) .none)
        .none) (.condition (.comparison ⟨"order", .none⟩ .notEqual (.column ⟨"null", .none⟩)) .none)
        .none) .none
    String.ofList (filter.source quote) =
        "(isbn < -2 OR 5abc IS NOT NULL) AND (NOT a.b IN (\"it's\", '(') AND order != null)" ∧
      filter.depth = 2 ∧
      ∃ read, parse (String.ofList (filter.source quote)) = .ok read ∧
        read.eraseSpans = filter.eraseSpans := by
  intro quote filter
  have hRegular : filter.IsRegular :=
    .and (.or (.condition trivial) (.condition trivial))
      (.and (.negation ⟨List.cons_ne_nil _ _, by simp [Literal.IsRegular]⟩) (.condition trivial))
  have hSpellable : filter.IsSpellable quote := by decide +kernel
  refine ⟨by decide +kernel, rfl, parse_source hRegular hSpellable ?_⟩
  exact Nat.le_of_ble_eq_true rfl

end RowFilter
