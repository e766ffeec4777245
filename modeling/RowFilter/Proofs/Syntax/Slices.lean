import RowFilter.Proofs.Grammar.Moved
import RowFilter.Proofs.Syntax.Balance
import RowFilter.Proofs.Syntax.Context
import RowFilter.Proofs.Syntax.Detached
import RowFilter.Proofs.Syntax.Placement

/-! The slices of a text at its conditions. What a condition or a negation of a
filter takes is a text that spells it alone, and the spans of what it spells
are those of the filter, but for what stands in front of the slice. -/

namespace RowFilter

open Grammar Text

variable {length bytes : Nat} {start stop : Cursor} {node other : Node Rule}
  {nodes others : List (Node Rule)} {filter built : Filter}

section Spans

private theorem movedBy_ofNode (h : Node.Moved bytes node other) :
    (Span.ofNode other).movedBy bytes = (Span.ofNode node).movedBy 0 := by
  simp only [Span.movedBy, Span.ofNode, h.start_eq, h.stop_eq, Nat.add_zero]

private theorem ConditionOf.columns_eq {c : Condition} (h : ConditionOf length c node) :
    c.columns = (node.parts.filter (·.rule = .name)).map .ofNode := by
  cases h with
  | comparison hColumn hSymbol _ hRight =>
    cases hRight with
    | literal hValue =>
      cases hValue with
      | number hNode =>
        simp [Condition.columns, Operand.columns, Node.parts, hColumn.rule_eq, hSymbol.rule_eq,
          hNode.rule_eq]
      | string hNode =>
        simp [Condition.columns, Operand.columns, Node.parts, hColumn.rule_eq, hSymbol.rule_eq,
          hNode.rule_eq]
    | column hNode =>
      simp [Condition.columns, Operand.columns, Node.parts, hColumn.rule_eq, hSymbol.rule_eq,
        hNode.rule_eq]
  | isNull hColumn hTest | isNotNull hColumn hTest =>
    simp [Condition.columns, Node.parts, hColumn.rule_eq, hTest.rule_eq]
  | @inList _ _ _ nodes _ _ first last hColumn hKeyword
  | @notInList _ _ _ nodes _ _ first last hColumn hKeyword =>
    have hList : (Node.node Rule.literalList first last nodes).rule = .literalList := rfl
    simp [Condition.columns, Node.parts, hColumn.rule_eq, hKeyword.rule_eq, hList]

private theorem map_movedBy_names (h : Node.AllMoved bytes nodes others) :
    (others.filter (·.rule = .name)).map (fun part => (Span.ofNode part).movedBy bytes) =
      (nodes.filter (·.rule = .name)).map (fun part => (Span.ofNode part).movedBy 0) := by
  induction nodes generalizing others with
  | nil =>
    cases others with
    | nil => rfl
    | cons => exact h.elim
  | cons node nodes ih =>
    obtain ⟨other, rest, rfl, hNode, hRest⟩ := h.exists_cons
    rw [List.filter_cons, List.filter_cons, hNode.rule_eq]
    split
    · rw [List.map_cons, List.map_cons, movedBy_ofNode hNode, ih hRest]
    · exact ih hRest

private theorem ConditionOf.mapSpans_eq {c read : Condition} {otherLength : Nat}
    (h : ConditionOf length c node) (hRead : ConditionOf otherLength read other)
    (hMoved : Node.Moved bytes node other) (hErased : read.eraseSpans = c.eraseSpans) :
    read.mapSpans (.movedBy bytes) = c.mapSpans (.movedBy 0) := by
  apply Condition.mapSpans_eq hErased
  have hNames := map_movedBy_names hMoved.parts
  rw [hRead.columns_eq, h.columns_eq, List.map_map, List.map_map]
  exact hNames

end Spans

section Simple

private theorem mapSpans_eq {otherLength : Nat} {first last : Cursor}
    (h : MatchesSimple length start [node] stop) (hFilter : Filter.ofNode node = .ok filter)
    (hOther : MatchesSimple otherLength first [other] last)
    (hBuilt : Filter.ofNode other = .ok built) (hMoved : Node.Moved bytes node other)
    (hErased : built.eraseSpans = filter.eraseSpans) :
    built.mapSpans (.movedBy bytes) = filter.mapSpans (.movedBy 0) := by
  obtain ⟨-, -, hCases⟩ := simple_cases h hFilter
  obtain ⟨-, -, hOtherCases⟩ := simple_cases hOther hBuilt
  rcases hCases with ⟨c, rfl, hNode⟩ | ⟨c, inner, _, rfl, -, -, -, -, hNode, keyword, hParts⟩
  · rcases hOtherCases with ⟨read, rfl, hRead⟩ | ⟨_, _, _, rfl, -⟩
    · have hSame := hNode.mapSpans_eq hRead hMoved (Filter.condition.inj hErased).1
      simp only [Filter.mapSpans, hSame, movedBy_ofNode hMoved]
    · cases hErased
  · rcases hOtherCases with ⟨_, rfl, -⟩ | ⟨read, part, _, rfl, -, -, -, -, hRead, word, hOthers⟩
    · cases hErased
    · have hAllMoved := hMoved.parts
      rw [hParts, hOthers] at hAllMoved
      obtain ⟨-, hInner, -⟩ := hAllMoved
      have hSame := hNode.mapSpans_eq hRead hInner
        (Filter.condition.inj (Filter.not.inj hErased).1).1
      simp only [Filter.mapSpans, hSame, movedBy_ofNode hMoved, movedBy_ofNode hInner]

end Simple

section Texts

variable {connective : Connective} {taken : List Char} {pieces : List (Piece Rule)}

private theorem accepts_chain {P : List (Node Rule) → Prop}
    (h : Accepts filterGrammar length (.rule connective.operandRule) .initial taken [] P) :
    Accepts filterGrammar length (.rule connective.chainRule) .initial taken []
      (IsShown connective.chainRule (Joined P (· = []))) := by
  have hEnd : Refuses filterGrammar length (.rule connective.keyword) .initial [] := by
    cases connective <;> exact refuses_word rfl rfl rfl
  have hMany : Accepts filterGrammar length (.many (furtherOperand connective)) .initial [] []
      (· = []) := .many (.done (.seqFirst hEnd)) rfl
  have hBody : Accepts filterGrammar length connective.chainRule.body .initial taken []
      (Joined P (· = [])) := by
    rw [Connective.body_chainRule]
    exact h.seq hMany
  exact .normal hBody (by cases connective <;> rfl) rfl

private theorem ofNode_chain (hDelimiter : Filter.isDelimiter node.rule = false)
    (hNode : Filter.ofNode node = .ok filter) :
    Filter.ofNode (.node connective.chainRule start stop [node]) = .ok filter := by
  have hChain (chain : Node Rule) : Filter.chainOf connective chain none [node] = .ok filter := by
    rw [Filter.chainOf_operand hDelimiter, hNode]
    rfl
  cases connective <;> exact (Filter.ofNode.eq_def _).trans (hChain _)

/-- What the pieces of a condition or a negation show where nothing stands behind them. -/
private def IsShownAlone (taken : List Char) (pieces : List (Piece Rule))
    (nodes : List (Node Rule)) : Prop :=
  ∃ first last, first.rest = taken ∧ nodes = Piece.locateAll first pieces ∧
    MatchesSimple taken.length first nodes last

private theorem accepts_alone (hReads : filterGrammar.Reads taken.length
      (.once (.choice (.rule .negation) (.rule .condition))) .initial taken (some (pieces, []))) :
    Accepts filterGrammar taken.length (.choice (.rule .negation) (.rule .condition)) .initial
      taken [] (IsShownAlone taken pieces) := by
  intro first hFirst
  have hText := hReads.text_eq
  rw [← hFirst] at hText
  have hRest := Cursor.rest_past hText
  have hMatch : MatchesSimple taken.length first (Piece.locateAll first pieces)
      (first.past (Piece.textOf pieces)) := ⟨pieces, by rwa [hFirst, hRest], rfl, rfl⟩
  exact ⟨_, _, hMatch, by rw [hRest]; rfl, first, _, hFirst, rfl, hMatch⟩

private theorem exists_isFilterMatch_alone (hReads : filterGrammar.Reads taken.length
      (.once (.choice (.rule .negation) (.rule .condition))) .initial taken (some (pieces, []))) :
    ∃ root nodes others, IsFilterMatch taken root ∧ IsShownAlone taken pieces nodes ∧
      (∀ node ∈ nodes, node.start.StandsIn taken) ∧
      ∃ start stop innerStart innerStop, root.parts =
        .node .disjunction start stop [.node .conjunction innerStart innerStop nodes] :: others := by
  have hFactor : Accepts filterGrammar taken.length (.rule Connective.and.operandRule) .initial
      taken [] (IsShownAlone taken pieces) :=
    .silent (.choiceSecond (excludes_simpleFactor_group hReads) (accepts_alone hReads)) rfl
  have hConjunction : Accepts filterGrammar taken.length (.rule Connective.or.operandRule) .initial
      taken [] _ := accepts_chain hFactor
  have hDisjunction := accepts_chain hConjunction
  have hGap : Mode.initial.behindGap isGap taken = taken :=
    (stopsAt_gap_of_reads hReads).dropWhile_eq_self
  obtain ⟨_, _, endStart, endStop, _, ⟨start, stop, _, rfl, _, _, rfl,
    ⟨innerStart, innerStop, _, rfl, nodes, _, rfl, hNodes, rfl⟩, rfl⟩, hRoot⟩ :=
    IsFilterMatch.exists_of_accepts fun first hFirst => hDisjunction first (hFirst.trans hGap)
  rw [List.append_nil, List.append_nil] at hRoot
  refine ⟨_, nodes, _, hRoot, hNodes, fun node hNode => ?_, start, stop, innerStart, innerStop,
    rfl⟩
  obtain ⟨_, hMatches⟩ := hRoot
  have hMem := Node.mem_preorderAll_of_mem hNode
  exact hMatches.start_standsIn (.ofText taken) (by simp [Node.preorderAll_cons, hMem])

end Texts

namespace Filter

/-- What a condition or a negation takes spells it alone. -/
theorem exists_parse_of_matchesSimple (h : MatchesSimple length start [node] stop)
    (hFilter : ofNode node = .ok filter) :
    ∃ taken read, start.rest = taken ++ stop.rest ∧ stop = start.past taken ∧
      parse (String.ofList taken) = .ok read ∧
      read.mapSpans (.movedBy start.offset) = filter.mapSpans (.movedBy 0) := by
  have hMatch := h
  obtain ⟨pieces, hReads, hNodes, hStop⟩ := h
  have hText := hReads.text_eq
  have hGap : Mode.initial.behindGap isGap start.rest = start.rest :=
    (stopsAt_gap_of_reads hReads).dropWhile_eq_self
  have hNothing : BeginsLike isGap stop.rest [] := nofun
  have hAlone := detaches_simpleFactor (Piece.textOf pieces).length (Nat.le_refl _) hGap hReads
    hNothing trivial
  rw [List.append_nil] at hAlone
  obtain ⟨root, _, _, hRoot, ⟨first, last, hFirst, rfl, hAloneMatch⟩, hStands, _, _, _, _,
    hParts⟩ :=
    exists_isFilterMatch_alone hAlone
  have hAllAlike : Node.AllAlike Rule.isSpelled _ _ :=
    (Piece.allAlike_self pieces).locateAll hText (hFirst.trans (List.append_nil _).symm)
  rw [← hNodes] at hAllAlike
  obtain ⟨other, hOther, hAlike⟩ := hAllAlike.exists_singleton
  rw [hOther] at hAloneMatch hStands hParts
  obtain ⟨_, read, hSame, hDelimiter, -, hRead, hErased⟩ :=
    buildsFilter_of_alike hMatch hFilter hAlike
  obtain rfl := (List.cons.inj hSame).1
  have hOtherStands := hStands other List.mem_cons_self
  rw [(simple_cases hAloneMatch hRead).1] at hOtherStands
  have hZero : first.offset = 0 := hOtherStands.offset_eq_zero_iff.2 (by rw [hFirst])
  have hAllMoved : Node.AllMoved start.offset (Piece.locateAll start pieces)
      (Piece.locateAll first pieces) :=
    Piece.allMoved_locateAll pieces (by rw [hZero, Nat.zero_add])
  rw [← hNodes, hOther] at hAllMoved
  obtain ⟨inner, hInner, hNests⟩ := nestsUpTo_simpleFactor (Nat.le_refl _) hReads
  have hWithin := hNests.isWithinLimit (Nat.le_trans hInner (by decide))
  refine ⟨Piece.textOf pieces, read, hText, hStop, ?_,
    mapSpans_eq hMatch hFilter hAloneMatch hRead hAllMoved.1 hErased⟩
  rw [← String.toList_ofList (l := Piece.textOf pieces)] at hWithin hRoot
  rw [parse_of_match hWithin hRoot, ofNodes_eq_ok hParts rfl]
  exact @ofNode_chain _ _ _ _ .or rfl (@ofNode_chain _ _ _ _ .and hDelimiter hRead)

variable {source : String}

/-- The slice of an accepted text at one of its conditions or negations spells the condition or
negation, at places that begin anew. -/
theorem exists_parse_slice (h : parse source = .ok filter) :
    ∀ node ∈ filter.preorder, node.isCondition = true ∨ node.isNegation = true →
      ∃ read, parse (String.ofList (node.span.slice source.toList)) = .ok read ∧
        read.mapSpans (.movedBy node.span.start) = node.mapSpans (.movedBy 0) := by
  intro node hNode hKind
  cases (standsIn_of_parse h).of_mem_preorder node hNode with
  | @simple _ start stop part _ hStart hMatch hFilter =>
    obtain ⟨taken, read, hText, hStop, hParse, hSpans⟩ := exists_parse_of_matchesSimple hMatch hFilter
    obtain ⟨hPartStart, hPartStop, -⟩ := simple_cases hMatch hFilter
    rw [← hPartStart, ← hPartStop] at hStop
    rw [← hPartStart] at hStart hText hSpans
    obtain ⟨before, hWhole, hAround⟩ := ofNode_eq_around hStart hStop
    rw [hText] at hWhole
    have hSpan := span_of_matchesSimple hMatch hFilter
    have hSlice : node.span.slice source.toList = taken := by
      rw [hSpan, hAround, Span.slice_around hWhole]
    rw [hSlice, hSpan]
    exact ⟨read, hParse, hSpans⟩
  | @join connective =>
    cases connective <;> simp [Connective.join, isCondition, isNegation] at hKind

/-- A negation between words that touch it, with backticks. -/
theorem exists_parse_slice_negation :
    ∃ filter negation, parse "a='ü'AND NOT `c`IN(1)or d!=e" = .ok filter ∧
      negation ∈ filter.preorder ∧ negation.isNegation = true ∧ negation.span.start = 10 ∧
      String.ofList (negation.span.slice "a='ü'AND NOT `c`IN(1)or d!=e".toList) = "NOT `c`IN(1)" ∧
      ∃ read, parse (String.ofList (negation.span.slice "a='ü'AND NOT `c`IN(1)or d!=e".toList)) =
          .ok read ∧
        read.mapSpans (.movedBy negation.span.start) = negation.mapSpans (.movedBy 0) := by
  let negation : Filter :=
    .not (.condition (.membership ⟨"c", 15, 16, 1, 15⟩ false [.integer 1]) ⟨14, 22, 1, 14⟩)
      ⟨10, 22, 1, 10⟩
  let filter : Filter := .or
    (.and (.condition (.comparison ⟨"a", 0, 1, 1, 1⟩ .equal (.literal (.text "ü"))) ⟨0, 6, 1, 1⟩)
      negation ⟨0, 22, 1, 1⟩)
    (.condition (.comparison ⟨"d", 25, 26, 1, 25⟩ .notEqual (.column ⟨"e", 28, 29, 1, 28⟩))
      ⟨25, 29, 1, 25⟩)
    ⟨0, 29, 1, 1⟩
  refine ⟨filter, negation, ?parses, ?mem, rfl, rfl, ?slice,
    exists_parse_slice ?parses negation ?mem (.inr rfl)⟩
  case parses => exact parse_of_toOption (by decide +kernel)
  case mem => decide +kernel
  case slice => decide +kernel

end Filter

end RowFilter
