import RowFilter.Proofs.Syntax.Assembly
import RowFilter.Proofs.Syntax.Built
import RowFilter.Proofs.Syntax.Edges

/-! Where the nodes of a filter stand in its text. Conditions and negations are
built from matches of their rules, and of two joined filters the left one ends
before the right one begins. All spans of a filter are faithful for that. -/

namespace RowFilter

open Grammar Text

variable {length : Nat} {whole : List Char} {start stop : Cursor} {nodes : List (Node Rule)}
  {node : Node Rule} {connective : Connective} {filter : Filter}

/-- How a filter stands in a text. -/
inductive Filter.StandsIn (whole : List Char) : Filter → Prop where
  /-- It is built from a match of its own. -/
  | simple {length : Nat} {start stop : Cursor} {node : Node Rule} {filter : Filter}
      (hStart : start.StandsIn whole) (hMatch : MatchesSimple length start [node] stop)
      (hFilter : Filter.ofNode node = .ok filter) : StandsIn whole filter
  /-- It consists of two filters, one behind the other. -/
  | join {connective : Connective} {left right : Filter} (hLeft : StandsIn whole left)
      (hRight : StandsIn whole right) (hOrder : left.span.stop < right.span.start) :
      StandsIn whole (connective.join left right (left.span.cover right.span))

section Leaves

private theorem ends_of_condition
    (h : filterGrammar.Matches length (.once (.rule .condition)) .initial start [node] stop) :
    node.start = start ∧ node.stop = stop := by
  have hShown {rule : Rule} (hShows : filterGrammar.shows rule .initial = true)
      (h : filterGrammar.Matches length (.once (.rule rule)) .initial start [node] stop) :
      node.start = start ∧ node.stop = stop := by
    obtain ⟨parts, -, hNodes⟩ := h.of_rule
    rw [if_pos hShows] at hNodes
    obtain rfl := (List.cons.inj hNodes).1
    exact ⟨rfl, rfl⟩
  obtain ⟨_, hParts, hNodes⟩ := h.of_rule
  obtain rfl : [node] = _ := hNodes
  rcases hParts.of_choice with hNull | hParts
  · exact hShown rfl hNull
  rcases hParts.of_choice with hNotIn | hParts
  · exact hShown rfl hNotIn
  rcases hParts.of_choice with hIn | hComparison
  · exact hShown rfl hIn
  · exact hShown rfl hComparison

private theorem IsCondition.span_eq (h : IsCondition length node)
    (hFilter : Filter.ofNode node = .ok filter) : filter.span = .ofNode node := by
  cases h with
  | comparison | inList | notInList =>
    rw [Filter.ofNode] at hFilter
    obtain ⟨_, -, rfl⟩ := exists_of_map_eq_ok hFilter
    rfl
  | nullCheck =>
    rw [Filter.ofNode] at hFilter
    cases hFilter
    rfl

private theorem matchesSimple_of_condition
    (h : filterGrammar.Matches length (.once (.rule .condition)) .initial start nodes stop) :
    MatchesSimple length start nodes stop := by
  obtain ⟨pieces, hReads, hNodes, hStop⟩ := h
  exact ⟨pieces, .choiceSecond (excludes_condition_negation hReads) hReads, hNodes, hStop⟩

/-- What a condition or a negation is built from. -/
theorem simple_cases (h : MatchesSimple length start [node] stop)
    (hFilter : Filter.ofNode node = .ok filter) :
    node.start = start ∧ node.stop = stop ∧
      ((∃ c, filter = .condition c (.ofNode node) ∧ ConditionOf length c node) ∨
        ∃ c inner middle, filter = .not (.condition c (.ofNode inner)) (.ofNode node) ∧
          (∀ whole, start.StandsIn whole → middle.StandsIn whole) ∧ start.offset ≤ middle.offset ∧
          MatchesSimple length middle [inner] stop ∧
          Filter.ofNode inner = .ok (.condition c (.ofNode inner)) ∧
          ConditionOf length c inner ∧ ∃ keyword, node.parts = [keyword, inner]) := by
  rcases h.of_choice with hNegation | hCondition
  · obtain ⟨_, hBody, hNodes⟩ := hNegation.of_rule
    obtain ⟨_, last, _, hKeyword, hCondition, rfl⟩ := hBody.of_seq
    obtain ⟨keyword, rfl, hLeaf⟩ := exists_isLeaf_of_atomic hKeyword rfl rfl
    obtain ⟨inner, rfl, hInner⟩ := exists_isCondition hCondition
    obtain rfl : node = .node .negation start stop [keyword, inner] := (List.cons.inj hNodes).1
    rw [Filter.ofNode_negation hLeaf hInner] at hFilter
    obtain ⟨operand, hOperand, rfl⟩ := exists_of_map_eq_ok hFilter
    obtain ⟨c, span, rfl, hBuilt⟩ := hInner.exists_conditionOf hOperand
    obtain rfl := hInner.span_eq hOperand
    have hSkipLe := Mode.initial.offset_le_skip filterGrammar.isBlank last
    exact ⟨rfl, rfl, .inr ⟨c, inner, _, rfl,
      fun _ hStart => (Mode.initial.skip_standsIn _ (hKeyword.stop_standsIn hStart)).2,
      Nat.le_trans hKeyword.offset_le hSkipLe, matchesSimple_of_condition hCondition, hOperand,
      hBuilt, keyword, rfl⟩⟩
  · obtain ⟨hStart, hStop⟩ := ends_of_condition hCondition
    obtain ⟨inner, hNodes, hInner⟩ := exists_isCondition hCondition
    obtain rfl := (List.cons.inj hNodes).1
    obtain ⟨c, span, rfl, hBuilt⟩ := hInner.exists_conditionOf hFilter
    obtain rfl := hInner.span_eq hFilter
    exact ⟨hStart, hStop, .inl ⟨c, rfl, hBuilt⟩⟩

/-- The span of a match is the one around what it takes. -/
theorem ofNode_eq_around {taken : List Char} (hStart : node.start.StandsIn whole)
    (hStop : node.stop = node.start.past taken) :
    ∃ before, whole = before ++ node.start.rest ∧ Span.ofNode node = .around before taken := by
  obtain ⟨before, hWhole, hOffset, hPosition⟩ := hStart.exists_before
  refine ⟨before, hWhole, ?_⟩
  rw [Span.ofNode, hStop, Cursor.offset_past, hOffset, hPosition, Position.line_after,
    Position.column_after, Span.around]

end Leaves

section Nodes

/-- A condition or a negation has the span of its match. -/
theorem span_of_matchesSimple (h : MatchesSimple length start [node] stop)
    (hFilter : Filter.ofNode node = .ok filter) : filter.span = .ofNode node := by
  obtain ⟨-, -, ⟨c, rfl, -⟩ | ⟨c, inner, -, rfl, -⟩⟩ := simple_cases h hFilter <;> rfl

private theorem surrounds_of_matchesSimple (hStart : start.StandsIn whole)
    (h : MatchesSimple length start [node] stop) (hFilter : Filter.ofNode node = .ok filter) :
    filter.span.Surrounds whole ∧ filter.span.start = start.offset ∧
      filter.span.stop = stop.offset := by
  obtain ⟨rfl, rfl, -⟩ := simple_cases h hFilter
  rw [span_of_matchesSimple h hFilter]
  refine ⟨?_, rfl, rfl⟩
  obtain ⟨pieces, hReads, -, hStop⟩ := h
  obtain ⟨before, hWhole, hAround⟩ := ofNode_eq_around hStart hStop
  exact ⟨before, _, node.stop.rest, by rw [hWhole, hReads.text_eq], hAround,
    isTrimmed_of_reads hReads⟩

namespace Filter.StandsIn

/-- The span of a filter in a text surrounds a piece of it. -/
theorem surrounds (h : filter.StandsIn whole) : filter.span.Surrounds whole := by
  induction h with
  | simple hStart hMatch hFilter => exact (surrounds_of_matchesSimple hStart hMatch hFilter).1
  | @join connective left right _ _ hOrder ihLeft ihRight =>
    have hCover := (ihLeft.cover ihRight hOrder).1
    cases connective <;> exact hCover

/-- The nodes below a node stand in the text as well. -/
theorem of_mem_preorder (h : filter.StandsIn whole) :
    ∀ node ∈ filter.preorder, node.StandsIn whole := by
  induction h with
  | @simple _ start stop node filter hStart hMatch hFilter =>
    have hSelf := simple hStart hMatch hFilter
    obtain ⟨-, -, ⟨c, rfl, -⟩ | ⟨c, inner, middle, rfl, hMiddle, -, hInner, hOperand, -⟩⟩ :=
      simple_cases hMatch hFilter
    · exact List.forall_mem_singleton.2 hSelf
    · exact List.forall_mem_cons.2
        ⟨hSelf, List.forall_mem_singleton.2 (simple (hMiddle whole hStart) hInner hOperand)⟩
  | @join connective left right hLeft hRight hOrder ihLeft ihRight =>
    have hSelf : (connective.join left right (left.span.cover right.span)).StandsIn whole :=
      join hLeft hRight hOrder
    have hAll := List.forall_mem_cons.2 ⟨hSelf, List.forall_mem_append.2 ⟨ihLeft, ihRight⟩⟩
    cases connective <;> exact hAll

end Filter.StandsIn

private theorem ConditionOf.exists_leaf {c : Condition} (h : ConditionOf length c node) :
    ∀ column ∈ c.columns, ∃ leaf ∈ node.parts, IsLeaf length .name leaf ∧ column = .ofNode leaf := by
  cases h with
  | comparison hColumn _ _ hRight =>
    refine List.forall_mem_cons.2 ⟨⟨_, List.mem_cons_self, hColumn, rfl⟩, ?_⟩
    cases hRight with
    | literal => exact nofun
    | column hNode =>
      exact List.forall_mem_singleton.2 ⟨_, by simp [Node.parts], hNode, rfl⟩
  | isNull hColumn | isNotNull hColumn | inList hColumn | notInList hColumn =>
    exact List.forall_mem_singleton.2 ⟨_, List.mem_cons_self, hColumn, rfl⟩

private theorem mem_preorder_of_mem_parts {part : Node Rule} (h : part ∈ node.parts) :
    part ∈ node.preorder := by
  obtain ⟨rule, start, stop, parts⟩ := node
  exact List.mem_cons_of_mem _ (Node.mem_preorderAll_of_mem h)

private theorem isFaithful_column {leaf : Node Rule} (hStart : start.StandsIn whole)
    (h : MatchesSimple length start [node] stop) (hLeaf : IsLeaf length .name leaf)
    (hMem : leaf ∈ node.parts) :
    (Column.ofNode leaf).IsFaithful whole ∧ start.offset ≤ leaf.start.offset ∧
      leaf.stop.offset ≤ stop.offset := by
  have hPreorder : leaf ∈ Node.preorderAll [node] := by
    rw [Node.preorderAll_singleton]
    exact mem_preorder_of_mem_parts hMem
  obtain ⟨before, taken, behind, hRest, hStop, hLeafStart, hLeafStop⟩ := h.exists_past hPreorder
  have hLeafRest : leaf.start.rest = taken ++ (behind ++ stop.rest) := by
    rw [hLeafStart, Cursor.rest_past hRest]
  have hText : leaf.text = String.ofList taken := by
    rw [Node.text, hLeafStop, Cursor.textTo_past hLeafRest]
  have hTakes : filterGrammar.Takes length (.rule .name) _ _ _ :=
    takes_rule.2 (hLeaf.takes_text rfl)
  rw [hText, String.toList_ofList] at hTakes
  have hTrimmed := isTrimmed_of_takes_name hTakes
  obtain ⟨front, hWhole, hAround⟩ :=
    ofNode_eq_around (h.start_standsIn hStart hPreorder) hLeafStop
  rw [hLeafRest] at hWhole
  refine ⟨⟨?_, ?_⟩, ?_, ?_⟩
  · rw [Column.ofNode, hAround]
    exact Span.isFaithful_around hWhole hTrimmed
  · rw [Column.ofNode, hAround, Span.slice_around hWhole, hText]
  · rw [hLeafStart, Cursor.offset_past]
    exact Nat.le_add_right ..
  · rw [hLeafStop, hLeafStart, hStop, ← Cursor.past_append, Cursor.offset_past, Cursor.offset_past,
      byteLength_append, byteLength_append, byteLength_append]
    omega

/-- A node that stands in a text is faithful to it. -/
theorem Filter.StandsIn.isFaithful (h : filter.StandsIn whole) : filter.IsFaithful whole := by
  have hSpan := h.surrounds.isFaithful
  cases h with
  | @simple _ start stop node _ hStart hMatch hFilter =>
    obtain ⟨hNodeStart, hNodeStop, ⟨c, rfl, hCondition⟩ | ⟨c, inner, middle, rfl, hMiddle, hLe,
      hInner, hOperand, -⟩⟩ := simple_cases hMatch hFilter
    · refine ⟨hSpan, fun column hColumn => ?_⟩
      obtain ⟨leaf, hMem, hLeaf, rfl⟩ := hCondition.exists_leaf column hColumn
      obtain ⟨hFaithful, hFirst, hLast⟩ := isFaithful_column hStart hMatch hLeaf hMem
      rw [← hNodeStart] at hFirst
      rw [← hNodeStop] at hLast
      exact ⟨hFaithful, hFirst, hLast⟩
    · obtain ⟨-, hInnerStart, hInnerStop⟩ :=
        surrounds_of_matchesSimple (hMiddle whole hStart) hInner hOperand
      refine ⟨hSpan, ?_, ?_⟩
      · rw [hInnerStart, Span.ofNode, hNodeStart]
        exact hLe
      · rw [hInnerStop, Span.ofNode, hNodeStop]
  | @join connective left right hLeft hRight hOrder =>
    have hCover := (hLeft.surrounds.cover hRight.surrounds hOrder).2
    cases connective <;> exact ⟨hSpan, hOrder, hCover⟩

end Nodes

/-- A filter that stands in a text between two places. -/
structure Filter.StandsBetween (whole : List Char) (start stop : Cursor) (filter : Filter) :
    Prop where
  standsIn : filter.StandsIn whole
  start_le : start.offset ≤ filter.span.start
  stop_le : filter.span.stop ≤ stop.offset

/-- What is joined stands from where the first operand does to where the second one does. -/
theorem Filter.StandsBetween.join {whole : List Char} {first stop middle last : Cursor}
    {left right : Filter} (connective : Connective) (hLeft : left.StandsBetween whole first stop)
    (hRight : right.StandsBetween whole middle last) (hLt : stop.offset < middle.offset) :
    (connective.join left right (left.span.cover right.span)).StandsBetween whole first last := by
  have hOrder : left.span.stop < right.span.start :=
    Nat.lt_of_le_of_lt hLeft.stop_le (Nat.lt_of_lt_of_le hLt hRight.start_le)
  have hCover := (hLeft.standsIn.surrounds.cover hRight.standsIn.surrounds hOrder).2
  refine ⟨.join hLeft.standsIn hRight.standsIn hOrder, ?_, ?_⟩
  · rw [connective.span_join, hCover]
    exact hLeft.start_le
  · rw [connective.span_join, hCover]
    exact hRight.stop_le

private theorem MakesUp.standsBetween {level : Level} (h : MakesUp length level start stop filter)
    (hStart : start.StandsIn whole) :
    filter.StandsBetween whole start stop ∧ stop.StandsIn whole := by
  -- A keyword takes a character, so the operand behind it stands behind the chain in front of it.
  induction h with
  | simple hMatch hFilter =>
    obtain ⟨-, hFirst, hLast⟩ := surrounds_of_matchesSimple hStart hMatch hFilter
    exact ⟨⟨.simple hStart hMatch hFilter, Nat.le_of_eq hFirst.symm, Nat.le_of_eq hLast⟩,
      hMatch.stop_standsIn hStart⟩
  | @group start stop middle last _ _ filter hLeft _ hRight ih =>
    have hMiddleLe := Mode.initial.offset_le_skip filterGrammar.isBlank middle
    have hLastLe := Mode.initial.offset_le_skip filterGrammar.isBlank last
    obtain ⟨hInner, hLast⟩ :=
      ih (Mode.initial.skip_standsIn filterGrammar.isBlank (hLeft.stop_standsIn hStart)).2
    exact ⟨⟨hInner.standsIn,
      Nat.le_trans hLeft.offset_le (Nat.le_trans hMiddleLe hInner.start_le),
      Nat.le_trans hInner.stop_le (Nat.le_trans hLastLe hRight.offset_le)⟩,
      hRight.stop_standsIn (Mode.initial.skip_standsIn filterGrammar.isBlank hLast).2⟩
  | conjunction _ ih | first _ ih => exact ih hStart
  | @join connective start stop middle last _ left right _ hKeyword _ ihLeft ihRight =>
    obtain ⟨hLeft, hStop⟩ := ihLeft hStart
    have hSkipLe := Mode.initial.offset_le_skip filterGrammar.isBlank stop
    have hMiddleLe := Mode.initial.offset_le_skip filterGrammar.isBlank middle
    have hKeywordLt := hKeyword.offset_lt filterGrammar_ranked (by cases connective <;> rfl)
    have hMiddle := hKeyword.stop_standsIn (Mode.initial.skip_standsIn _ hStop).2
    obtain ⟨hRight, hLast⟩ := ihRight (Mode.initial.skip_standsIn _ hMiddle).2
    exact ⟨hLeft.join connective hRight (by omega), hLast⟩
  | @gap connective start stop filter _ ih =>
    obtain ⟨hChain, hStop⟩ := ih hStart
    have hSkipLe := Mode.initial.offset_le_skip filterGrammar.isBlank stop
    exact ⟨⟨hChain.standsIn, hChain.start_le, Nat.le_trans hChain.stop_le hSkipLe⟩,
      (Mode.initial.skip_standsIn _ hStop).2⟩

namespace Filter

variable {source : String}

/-- A filter that a text spells stands in the text. -/
theorem standsIn_of_parse (h : parse source = .ok filter) : filter.StandsIn source.toList := by
  obtain ⟨start, stop, hStart, -, -, hMakesUp⟩ := exists_makesUp_of_parse h
  exact (hMakesUp.standsBetween hStart).1.standsIn

/-- Every node of a filter that a text spells has a faithful span. -/
theorem isFaithful_of_parse (h : parse source = .ok filter) :
    ∀ node ∈ filter.preorder, node.IsFaithful source.toList :=
  fun node hNode => ((standsIn_of_parse h).of_mem_preorder node hNode).isFaithful

/-- A group over two lines, with a character of two bytes and backticks. -/
theorem isFaithful_of_parse_group :
    ∃ filter, parse "(x = 'ü'\nOR `y` IS NULL) AND NOT z IN (1)" = .ok filter ∧
      (∀ node ∈ filter.preorder,
        node.IsFaithful "(x = 'ü'\nOR `y` IS NULL) AND NOT z IN (1)".toList) ∧
      filter = .and
        (.or
          (.condition (.comparison ⟨"x", 1, 2, 1, 2⟩ .equal (.literal (.text "ü"))) ⟨1, 9, 1, 2⟩)
          (.condition (.nullCheck ⟨"y", 14, 15, 2, 5⟩ false) ⟨13, 24, 2, 4⟩)
          ⟨1, 24, 1, 2⟩)
        (.not
          (.condition (.membership ⟨"z", 34, 35, 2, 25⟩ false [.integer 1]) ⟨34, 42, 2, 25⟩)
          ⟨30, 42, 2, 21⟩)
        ⟨1, 42, 1, 2⟩ := by
  refine ⟨_, ?parses, isFaithful_of_parse ?parses, rfl⟩
  exact parse_of_toOption (by decide +kernel)

end Filter

end RowFilter
