import RowFilter.Proofs.Grammar.Alike
import RowFilter.Proofs.Syntax.Levels

/-! Filters from alike matches. What matches build, up to spans, depends on
their rules and on the texts of names, symbols and values only. Matches that
are alike in this build the same filter, wherever they stand. -/

namespace RowFilter

open Grammar Node

/-- Whether the text of a match matters to what is built from it. -/
def Rule.isSpelled (rule : Rule) : Bool :=
  rule ∈ [.name, .number, .comparisonSymbol, .doubleQuoted, .singleQuoted]

variable {length : Nat} {node other : Node Rule} {nodes others : List (Node Rule)}

section Values

private theorem text_eq_of_isLeaf {rule : Rule} (hNode : IsLeaf length rule node)
    (h : Alike Rule.isSpelled node other) (hRule : rule.isSpelled = true) :
    node.text = other.text :=
  h.text_eq (by rwa [hNode.rule_eq])

private theorem eraseSpans_ofNode_of_alike (hNode : IsLeaf length .name node)
    (h : Alike Rule.isSpelled node other) :
    (Column.ofNode other).eraseSpans = (Column.ofNode node).eraseSpans := by
  simp only [Column.eraseSpans, Column.ofNode, text_eq_of_isLeaf hNode h rfl]

private theorem quotedText_eq (hNode : IsString length node)
    (h : Alike Rule.isSpelled node other) : quotedText node = quotedText other := by
  obtain ⟨part, hEq, hPart⟩ := hNode.exists_part
  have hParts := h.parts
  rw [hEq] at hParts
  obtain ⟨otherPart, hOther, hAlike⟩ := hParts.exists_singleton
  have hText : part.text = otherPart.text := by
    rcases hPart with hPart | hPart <;> exact text_eq_of_isLeaf hPart hAlike rfl
  simp only [quotedText, hEq, hOther, List.head?_cons, Option.map_some, hText]

private theorem IsLiteral.ofNode_of_alike (hNode : IsLiteral length node)
    (h : Alike Rule.isSpelled node other) {value : Literal}
    (hValue : Literal.ofNode node = .ok value) : Literal.ofNode other = .ok value := by
  rcases hNode with hNumber | hString
  · rw [Literal.ofNode, hNumber.rule_eq, text_eq_of_isLeaf hNumber h rfl] at hValue
    rw [Literal.ofNode, ← h.rule_eq, hNumber.rule_eq]
    dsimp only at hValue ⊢
    cases hLiteral : Literal.ofNumber? other.text with
    | none =>
      rw [hLiteral] at hValue
      cases hValue
    | some literal => rwa [hLiteral] at hValue
  · rw [Literal.ofNode, hString.rule_eq, quotedText_eq hString h] at hValue
    rw [Literal.ofNode, ← h.rule_eq, hString.rule_eq]
    exact hValue

private theorem literalsOf_of_alike
    (hNodes : ∀ node ∈ nodes,
      IsLiteral length node ∨ ¬(node.rule = .number ∨ node.rule = .string))
    (h : AllAlike Rule.isSpelled nodes others) {values : List Literal}
    (hValues : literalsOf nodes = .ok values) : literalsOf others = .ok values := by
  induction nodes generalizing others values with
  | nil =>
    rw [h.eq_nil]
    exact hValues
  | cons node nodes ih =>
    obtain ⟨other, rest, rfl, hAlike, hRest⟩ := h.exists_cons
    obtain ⟨hNode, hNodes⟩ := List.forall_mem_cons.1 hNodes
    rcases hNode with hLiteral | hMark
    · rw [literalsOf_cons hLiteral.rule_eq] at hValues
      obtain ⟨value, hValue, hValues⟩ := exists_of_bind_eq_ok hValues
      obtain ⟨more, hMore, rfl⟩ := exists_of_map_eq_ok hValues
      rw [literalsOf_cons (hAlike.rule_eq ▸ hLiteral.rule_eq),
        hLiteral.ofNode_of_alike hAlike hValue]
      exact congrArg (Except.map (value :: ·)) (ih hNodes hRest hMore)
    · rw [literalsOf_mark hMark] at hValues
      rw [literalsOf_mark (hAlike.rule_eq ▸ hMark)]
      exact ih hNodes hRest hValues

private theorem IsLeaf.isMark {rule : Rule} (h : IsLeaf length rule node)
    (hRule : ¬(rule = .number ∨ rule = .string)) :
    IsLiteral length node ∨ ¬(node.rule = .number ∨ node.rule = .string) :=
  .inr (by rwa [h.rule_eq])

private theorem HasValues.forall_mem (h : HasValues length nodes) :
    ∀ node ∈ nodes, IsLiteral length node ∨ ¬(node.rule = .number ∨ node.rule = .string) := by
  have hMore {others : List (Node Rule)} (h : HasMoreValues length others) : ∀ node ∈ others,
      IsLiteral length node ∨ ¬(node.rule = .number ∨ node.rule = .string) := by
    induction h with
    | last => exact nofun
    | more hComma hValue _ ih =>
      exact List.forall_mem_cons.2 ⟨hComma.isMark (by decide),
        List.forall_mem_cons.2 ⟨.inl hValue, ih⟩⟩
  cases h with
  | values hLeft hValue hOthers hRight =>
    refine List.forall_mem_cons.2 ⟨hLeft.isMark (by decide),
      List.forall_mem_cons.2 ⟨.inl hValue, List.forall_mem_append.2 ⟨hMore hOthers, ?_⟩⟩⟩
    exact List.forall_mem_singleton.2 (hRight.isMark (by decide))

private theorem operand_of_alike (hNode : IsLiteral length node ∨ IsLeaf length .name node)
    (h : Alike Rule.isSpelled node other) {right : Operand}
    (hRight : Operand.ofNode node = .ok right) :
    ∃ moved, Operand.ofNode other = .ok moved ∧ moved.eraseSpans = right.eraseSpans := by
  rcases hNode with hLiteral | hName
  · rw [Operand.ofNode_literal hLiteral] at hRight
    obtain ⟨value, hValue, rfl⟩ := exists_of_map_eq_ok hRight
    refine ⟨.literal value, ?_, rfl⟩
    have hOther : other.rule ≠ .name := by
      rw [← h.rule_eq]
      rcases hLiteral.rule_eq with hRule | hRule <;> rw [hRule] <;> decide
    unfold Operand.ofNode
    split
    · next hRule => exact absurd hRule hOther
    · rw [hLiteral.ofNode_of_alike h hValue]
      rfl
  · rw [Operand.ofNode, hName.rule_eq] at hRight
    cases hRight
    refine ⟨.column (.ofNode other), ?_, ?_⟩
    · rw [Operand.ofNode, ← h.rule_eq, hName.rule_eq]
    · exact congrArg Operand.column (eraseSpans_ofNode_of_alike hName h)

end Values

section Conditions

variable {filter : Filter} {start stop first last : Cursor} {parts otherParts : List (Node Rule)}

private theorem buildsFilter_of_build {build : Node Rule → Except TreeFault Condition} {rule : Rule}
    (hRule : rule ∈ [Rule.comparison, .nullCheck, .inList, .notInList])
    (hOfNode : ∀ start stop parts, Filter.ofNode (.node rule start stop parts) =
      Filter.ofCondition (.node rule start stop parts) (build (.node rule start stop parts)))
    (hBuild : ∀ built, build (.node rule start stop parts) = .ok built →
      ∃ moved, build (.node rule first last otherParts) = .ok moved ∧
        moved.eraseSpans = built.eraseSpans)
    (hFilter : Filter.ofNode (.node rule start stop parts) = .ok filter) :
    BuildsFilter filter [.node rule first last otherParts] := by
  rw [hOfNode] at hFilter
  obtain ⟨built, hBuilt, rfl⟩ := exists_of_map_eq_ok hFilter
  obtain ⟨moved, hMoved, hErased⟩ := hBuild built hBuilt
  exact buildsFilter_condition _ hRule ((hOfNode ..).trans (congrArg _ hMoved)) hErased

private theorem exists_membership_of_alike {keyword : Rule} {column word : Node Rule}
    {valuesStart valuesStop : Cursor} {values : List (Node Rule)} (negated : Bool) (kind : Rule)
    (hKeyword : keyword ≠ .literalList) (hColumn : IsLeaf length .name column)
    (hWord : IsLeaf length keyword word) (hValues : HasValues length values)
    (h : AllAlike Rule.isSpelled
      [column, word, .node .literalList valuesStart valuesStop values] otherParts)
    {built : Condition}
    (hBuilt : Condition.membershipOf negated (.node kind start stop
      [column, word, .node .literalList valuesStart valuesStop values]) = .ok built) :
    ∃ moved, Condition.membershipOf negated (.node kind first last otherParts) = .ok moved ∧
      moved.eraseSpans = built.eraseSpans := by
  obtain ⟨otherColumn, _, rfl, hColumns, h⟩ := h.exists_cons
  obtain ⟨otherWord, _, rfl, hWords, h⟩ := h.exists_cons
  obtain ⟨_, rfl, hLists⟩ := h.exists_singleton
  obtain ⟨_, _, otherValues, rfl, hAlike⟩ := hLists.exists_eq
  have hRule : word.rule ≠ .literalList := by rwa [hWord.rule_eq]
  rw [Condition.membershipOf_eq hRule] at hBuilt
  obtain ⟨literals, hLiterals, rfl⟩ := exists_of_map_eq_ok hBuilt
  refine ⟨.membership (.ofNode otherColumn) negated literals, ?_, ?_⟩
  · rw [Condition.membershipOf_eq (hWords.rule_eq ▸ hRule),
      literalsOf_of_alike hValues.forall_mem hAlike hLiterals]
    rfl
  · simp only [Condition.eraseSpans, eraseSpans_ofNode_of_alike hColumn hColumns]

/-- A match that is like the match of a condition builds the same condition. -/
theorem IsCondition.buildsFilter_of_alike (hNode : IsCondition length node)
    (h : Alike Rule.isSpelled node other) (hFilter : Filter.ofNode node = .ok filter) :
    BuildsFilter filter [other] := by
  cases hNode with
  | comparison hColumn hSymbol hOperand =>
    obtain ⟨first, last, _, rfl, hParts⟩ := h.exists_eq
    obtain ⟨column, _, rfl, hColumns, hParts⟩ := hParts.exists_cons
    obtain ⟨symbol, _, rfl, hSymbols, hParts⟩ := hParts.exists_cons
    obtain ⟨operand, rfl, hOperands⟩ := hParts.exists_singleton
    obtain ⟨operator, hOperator⟩ := hSymbol.exists_operator
    have hMoved := hOperator
    rw [text_eq_of_isLeaf hSymbol hSymbols rfl] at hMoved
    refine buildsFilter_of_build (by decide) (fun _ _ _ => Filter.ofNode.eq_def _)
      (fun built hBuilt => ?_) hFilter
    simp only [Condition.comparisonOf, Node.parts, hOperator] at hBuilt
    obtain ⟨right, hRight, rfl⟩ := exists_of_map_eq_ok hBuilt
    obtain ⟨moved, hOther, hErased⟩ := operand_of_alike hOperand hOperands hRight
    refine ⟨.comparison (.ofNode column) operator moved, ?_, ?_⟩
    · simp only [Condition.comparisonOf, Node.parts, hMoved, hOther, Except.map]
    · simp only [Condition.eraseSpans, eraseSpans_ofNode_of_alike hColumn hColumns, hErased]
  | nullCheck hColumn =>
    obtain ⟨first, last, _, rfl, hParts⟩ := h.exists_eq
    obtain ⟨column, _, rfl, hColumns, hParts⟩ := hParts.exists_cons
    obtain ⟨test, rfl, hTests⟩ := hParts.exists_singleton
    refine buildsFilter_of_build (by decide) (fun _ _ _ => Filter.ofNode.eq_def _)
      (fun built hBuilt => ?_) hFilter
    cases hBuilt
    refine ⟨_, rfl, ?_⟩
    simp only [Condition.eraseSpans, eraseSpans_ofNode_of_alike hColumn hColumns, hTests.rule_eq]
  | inList hColumn hKeyword hValues =>
    obtain ⟨first, last, others, rfl, hParts⟩ := h.exists_eq
    exact buildsFilter_of_build (by decide) (fun _ _ _ => Filter.ofNode.eq_def _)
      (fun built => exists_membership_of_alike false .inList (by decide) hColumn hKeyword hValues
        hParts) hFilter
  | notInList hColumn hKeyword hValues =>
    obtain ⟨first, last, others, rfl, hParts⟩ := h.exists_eq
    exact buildsFilter_of_build (by decide) (fun _ _ _ => Filter.ofNode.eq_def _)
      (fun built => exists_membership_of_alike true .notInList (by decide) hColumn hKeyword hValues
        hParts) hFilter

/-- So does the match of a negated condition. -/
theorem IsCondition.buildsFilter_negation {keyword : Node Rule}
    (hKeyword : IsLeaf length .keywordNot keyword) (hNode : IsCondition length node)
    (h : Alike Rule.isSpelled (.node .negation start stop [keyword, node]) other)
    (hFilter : Filter.ofNode (.node .negation start stop [keyword, node]) = .ok filter) :
    BuildsFilter filter [other] := by
  obtain ⟨first, last, _, rfl, hParts⟩ := h.exists_eq
  obtain ⟨newKeyword, _, rfl, hKeywords, hParts⟩ := hParts.exists_cons
  obtain ⟨newNode, rfl, hNodes⟩ := hParts.exists_singleton
  rw [Filter.ofNode_negation hKeyword hNode] at hFilter
  obtain ⟨operand, hOperand, rfl⟩ := exists_of_map_eq_ok hFilter
  obtain ⟨_, built, hSame, -, hOther, hBuilt, hErased⟩ := hNode.buildsFilter_of_alike hNodes hOperand
  obtain rfl := (List.cons.inj hSame).1
  have hNegation : Rule.negation ≠ .keywordNot := by decide
  refine ⟨_, .not built (.ofNode (.node .negation first last [newKeyword, newNode])), rfl, rfl,
    hNegation, ?_, congrArg (Filter.not · .none) hErased⟩
  rw [Filter.ofNode, Filter.negationOf, if_pos (hKeywords.rule_eq.symm.trans hKeyword.rule_eq),
    Filter.negationOf, if_neg hOther, hBuilt]
  rfl

end Conditions

section Chains

variable {filter : Filter} {connective : Connective}

private theorem IsLeaf.isShown_of_alike {rule : Rule} (hNode : IsLeaf length rule node)
    (h : Alike Rule.isSpelled node other) : IsShown rule (· = []) [other] := by
  obtain ⟨_, start, stop, parts⟩ := node
  obtain rfl := hNode.rule_eq
  obtain rfl : parts = [] := hNode.parts_eq
  obtain ⟨first, last, others, rfl, hParts⟩ := h.exists_eq
  exact ⟨first, last, others, rfl, hParts.eq_nil⟩

/-- What matches that are like those of a level build, if the matches themselves build something. -/
private def Level.IsRebuilt : Level → List (Node Rule) → List (Node Rule) → Prop
  | .operand _, nodes, others =>
    ∀ connective chain joined behind filter,
      Filter.chainOf connective chain joined (nodes ++ behind) = .ok filter →
      ∃ operand, AddsOperand operand others ∧
        Filter.chainOf connective chain (some (connective.attach joined operand)) behind =
          .ok filter
  | .rest connective, nodes, others =>
    ∀ chain left before filter, BeginsChain connective left before →
      Filter.chainOf connective chain (some left) nodes = .ok filter →
      BeginsChain connective filter (before ++ others)
  | .chain connective, nodes, others =>
    ∀ chain filter, Filter.chainOf connective chain none nodes = .ok filter →
      BeginsChain connective filter others

private theorem Level.isRebuilt_operand (hDelimiter : Filter.isDelimiter node.rule = false)
    (hBuilds : ∀ filter, Filter.ofNode node = .ok filter → BuildsFilter filter [other]) :
    (Level.operand connective).IsRebuilt [node] [other] := by
  intro connective chain joined behind filter hChain
  rw [List.singleton_append, Filter.chainOf_operand hDelimiter] at hChain
  obtain ⟨operand, hNode, hBehind⟩ := exists_of_bind_eq_ok hChain
  exact ⟨operand, (hBuilds operand hNode).addsOperand, hBehind⟩

private theorem HasShape.isRebuilt {level : Level} (hNodes : HasShape length level nodes)
    (h : AllAlike Rule.isSpelled nodes others) : level.IsRebuilt nodes others := by
  induction hNodes generalizing others with
  | condition hNode =>
    obtain ⟨other, rfl, hAlike⟩ := h.exists_singleton
    exact Level.isRebuilt_operand hNode.isDelimiter_eq_false fun _ =>
      hNode.buildsFilter_of_alike hAlike
  | negation hKeyword hNode =>
    obtain ⟨other, rfl, hAlike⟩ := h.exists_singleton
    exact Level.isRebuilt_operand rfl fun _ =>
      IsCondition.buildsFilter_negation hKeyword hNode hAlike
  | group hLeft _ hRight ih =>
    obtain ⟨otherLeft, _, rfl, hLefts, h⟩ := h.exists_cons
    obtain ⟨_, _, rfl, hChains, h⟩ := h.exists_cons
    obtain ⟨otherRight, rfl, hRights⟩ := h.exists_singleton
    obtain ⟨first, last, otherParts, rfl, hParts⟩ := hChains.exists_eq
    intro connective chain joined behind filter hChain
    rw [Filter.chainOf_group hLeft hRight] at hChain
    obtain ⟨operand, hNode, hBehind⟩ := exists_of_bind_eq_ok hChain
    rw [Filter.ofNode] at hNode
    have hBuilds : BuildsFilter operand [.node .disjunction first last otherParts] :=
      buildsFilter_chain .or ⟨first, last, otherParts, rfl, ih hParts _ operand hNode⟩
    exact ⟨operand, hBuilds.enclosed (hLeft.isShown_of_alike hLefts)
      (hRight.isShown_of_alike hRights), hBehind⟩
  | conjunction _ ih =>
    obtain ⟨_, rfl, hChains⟩ := h.exists_singleton
    obtain ⟨first, last, otherParts, rfl, hParts⟩ := hChains.exists_eq
    refine Level.isRebuilt_operand rfl fun filter hFilter => ?_
    rw [Filter.ofNode] at hFilter
    exact buildsFilter_chain .and ⟨first, last, otherParts, rfl, ih hParts _ filter hFilter⟩
  | last =>
    obtain rfl := h.eq_nil
    intro chain left before filter hLeft hChain
    rw [Filter.chainOf] at hChain
    cases hChain
    rwa [List.append_nil]
  | @more connective keyword operand rest hKeyword _ _ ihOperand ihRest =>
    obtain ⟨word, _, rfl, hWord, h⟩ := h.exists_cons
    obtain ⟨otherOperand, otherRest, rfl, hOperands, hRests⟩ := h.exists_append
    intro chain left before filter hLeft hChain
    have hDelimiter : Filter.isDelimiter keyword.rule = true := by
      rw [hKeyword.rule_eq, Filter.isDelimiter_keyword]
    rw [Filter.chainOf_delimiter hDelimiter] at hChain
    obtain ⟨right, hRight, hRest⟩ := ihOperand hOperands _ _ _ _ filter hChain
    have hJoined : BeginsChain connective
        (connective.join left right (left.span.cover right.span)) _ :=
      hLeft.join (hKeyword.isShown_of_alike hWord) hRight
    have hAll := ihRest hRests chain _ _ filter hJoined hRest
    simpa using hAll
  | chain _ _ ihOperand ihRest =>
    obtain ⟨otherOperand, otherRest, rfl, hOperands, hRests⟩ := h.exists_append
    intro chain filter hChain
    obtain ⟨first, hFirst, hRest⟩ := ihOperand hOperands _ _ _ _ filter hChain
    exact ihRest hRests chain first _ filter hFirst.beginsChain hRest

end Chains

/-- Texts with alike matches spell the same filter. -/
theorem Filter.parse_of_alike {source text : String} {filter : Filter} {root otherRoot : Node Rule}
    (hRoot : IsFilterMatch source.toList root)
    (hFilter : ofNodes source.toList [root] = .ok filter)
    (hOther : IsFilterMatch text.toList otherRoot) (hAlike : Alike Rule.isSpelled root otherRoot)
    (hWithin : Nesting.IsWithinLimit text.toList) :
    ∃ read, parse text = .ok read ∧ read.eraseSpans = filter.eraseSpans := by
  obtain ⟨start, stop, parts, endStart, endStop, -, -, hDisjunction, -, -, hParts⟩ :=
    hRoot.exists_parts
  obtain ⟨operands, hNodes, hShape⟩ := exists_hasShape hDisjunction
  obtain rfl : parts = operands := by simpa using hNodes
  have hAlikeParts := hAlike.parts
  rw [hParts] at hAlikeParts
  obtain ⟨other, ends, hOtherParts, hOtherNode, -⟩ := hAlikeParts.exists_cons
  obtain ⟨first, last, others, rfl, hOthers⟩ := hOtherNode.exists_eq
  rw [ofNodes_eq_ok hParts rfl, ofNode] at hFilter
  obtain ⟨_, read, hSame, -, -, hNode, hErased⟩ :=
    buildsFilter_chain .or ⟨first, last, others, rfl, hShape.isRebuilt hOthers _ filter hFilter⟩
  obtain rfl := (List.cons.inj hSame).1
  refine ⟨read, ?_, hErased⟩
  rwa [parse_of_match hWithin hOther, ofNodes_eq_ok hOtherParts rfl]

end RowFilter
