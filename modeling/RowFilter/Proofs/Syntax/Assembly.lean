import RowFilter.Proofs.Syntax.Parse

/-! How filters are put together. What stands between two places of a text makes
up a filter: conditions and negations, with connectives between them and
parentheses around them. The matches that build a filter make it up, so what
holds of each filter that is read is an induction with a case for each way to
put a filter together. -/

namespace RowFilter

open Grammar Text

variable {length bound : Nat} {start stop first : Cursor} {nodes others : List (Node Rule)}
  {node chain : Node Rule} {connective : Connective} {filter left : Filter}

/-- Where a condition or a negation is read. -/
abbrev MatchesSimple (length : Nat) (start : Cursor) (nodes : List (Node Rule)) (stop : Cursor) :
    Prop :=
  filterGrammar.Matches length (.once (.choice (.rule .negation) (.rule .condition))) .initial start
    nodes stop

/-- What is read between two places makes up a filter. -/
inductive MakesUp (length : Nat) : Level → Cursor → Cursor → Filter → Prop where
  /-- A condition or a negation is built from a match of its own. -/
  | simple {start stop : Cursor} {node : Node Rule} {filter : Filter}
      (hMatch : MatchesSimple length start [node] stop)
      (hFilter : Filter.ofNode node = .ok filter) :
      MakesUp length (.operand .and) start stop filter
  /-- A disjunction stands between parentheses. -/
  | group {start stop middle last : Cursor} {ahead behind : List (Node Rule)} {filter : Filter}
      (hLeft : filterGrammar.Matches length (.once (.rule .leftParen)) .initial start ahead middle)
      (hInner : MakesUp length (.chain .or) (Mode.initial.skip filterGrammar.isBlank middle) last
        filter)
      (hRight : filterGrammar.Matches length (.once (.rule .rightParen)) .initial
        (Mode.initial.skip filterGrammar.isBlank last) behind stop) :
      MakesUp length (.operand .and) start stop filter
  /-- Conjunctions are the operands of disjunctions. -/
  | conjunction {start stop : Cursor} {filter : Filter}
      (hChain : MakesUp length (.chain .and) start stop filter) :
      MakesUp length (.operand .or) start stop filter
  /-- An operand begins a chain. -/
  | first {connective : Connective} {start stop : Cursor} {filter : Filter}
      (hOperand : MakesUp length (.operand connective) start stop filter) :
      MakesUp length (.chain connective) start stop filter
  /-- A chain goes on with its connective and one more operand. -/
  | join {connective : Connective} {start stop middle last : Cursor} {word : List (Node Rule)}
      {left right : Filter} (hLeft : MakesUp length (.chain connective) start stop left)
      (hKeyword : filterGrammar.Matches length (.once (.rule connective.keyword)) .initial
        (Mode.initial.skip filterGrammar.isBlank stop) word middle)
      (hRight : MakesUp length (.operand connective)
        (Mode.initial.skip filterGrammar.isBlank middle) last right) :
      MakesUp length (.chain connective) start last
        (connective.join left right (left.span.cover right.span))
  /-- The gap behind a chain may count as a part of it. -/
  | gap {connective : Connective} {start stop : Cursor} {filter : Filter}
      (hChain : MakesUp length (.chain connective) start stop filter) :
      MakesUp length (.chain connective) start (Mode.initial.skip filterGrammar.isBlank stop) filter

/-- No filter is made up of nothing. -/
theorem MakesUp.rest_ne_nil {level : Level} (h : MakesUp length level start stop filter) :
    start.rest ≠ [] := by
  induction h with
  | simple hMatch => exact hMatch.rest_ne_nil filterGrammar_ranked rfl
  | group hLeft => exact hLeft.rest_ne_nil filterGrammar_ranked rfl
  | conjunction _ ih | first _ ih | join _ _ _ ih | gap _ ih => exact ih

section Operands

/-- Matches that join a filter, with its spans, to whatever chain they are a part of. -/
def JoinsOperand (filter : Filter) (nodes : List (Node Rule)) : Prop :=
  ∀ connective node joined others, Filter.chainOf connective node joined (nodes ++ others) =
    Filter.chainOf connective node (some (connective.attach joined filter)) others

/-- The operands of a chain that builds a filter build filters. -/
theorem HasShape.exists_joinsOperand {joined : Option Filter} {chain : Connective}
    (h : HasShape length (.operand connective) nodes)
    (hChain : Filter.chainOf chain node joined (nodes ++ others) = .ok filter) :
    ∃ operand, JoinsOperand operand nodes ∧
      Filter.chainOf chain node (some (chain.attach joined operand)) others = .ok filter := by
  obtain ⟨result, -, hResult⟩ := h.builds
  rw [hResult] at hChain
  cases result with
  | error fault => cases hChain
  | ok operand => exact ⟨operand, hResult, hChain⟩

/-- A single match that joins a filter builds it. -/
theorem JoinsOperand.ofNode_eq (h : JoinsOperand filter [node])
    (hRule : Filter.isDelimiter node.rule = false) : Filter.ofNode node = .ok filter := by
  have hChain := h .and node none []
  rw [List.append_nil, Filter.chainOf_operand hRule] at hChain
  obtain ⟨built, hNode, hBuilt⟩ := exists_of_bind_eq_ok hChain
  exact hNode.trans hBuilt

private theorem JoinsOperand.ofNode_enclosed {first second : Node Rule}
    (h : JoinsOperand filter ([first] ++ ([node] ++ [second])))
    (hFirst : Filter.isDelimiter first.rule = true) (hNode : Filter.isDelimiter node.rule = false)
    (hSecond : Filter.isDelimiter second.rule = true) : Filter.ofNode node = .ok filter := by
  have hChain := h .and node none []
  rw [List.append_nil, List.singleton_append, List.singleton_append,
    Filter.chainOf_delimiter hFirst, Filter.chainOf_operand hNode] at hChain
  obtain ⟨built, hBuilt, hLast⟩ := exists_of_bind_eq_ok hChain
  exact hBuilt.trans ((Filter.chainOf_delimiter hSecond).symm.trans hLast)

private theorem exists_node_of_matchesSimple (h : MatchesSimple length start nodes stop) :
    ∃ node, nodes = [node] ∧ Filter.isDelimiter node.rule = false := by
  rcases h.of_choice with hNegation | hCondition
  · obtain ⟨_, -, hNodes⟩ := hNegation.of_rule
    exact ⟨_, hNodes, rfl⟩
  · obtain ⟨node, hNodes, hNode⟩ := exists_isCondition hCondition
    exact ⟨node, hNodes, hNode.isDelimiter_eq_false⟩

end Operands

section Chains

/-- The operands of a connective in texts up to a length make up the filters that they build. -/
private def OperandsMakeUp (length bound : Nat) (connective : Connective) : Prop :=
  ∀ {start stop : Cursor} {nodes : List (Node Rule)} {filter : Filter}, start.rest.length ≤ bound →
    filterGrammar.Matches length (.once (.rule connective.operandRule)) .initial start nodes stop →
    JoinsOperand filter nodes → MakesUp length (.operand connective) start stop filter

private theorem makesUp_of_rounds (hOperands : OperandsMakeUp length bound connective)
    (hBound : start.rest.length ≤ bound)
    (hLeft : MakesUp length (.chain connective) first start left)
    (h : filterGrammar.Matches length
      (.again (.seq (.rule connective.keyword) (.rule connective.operandRule))) .initial
      start nodes stop)
    (hChain : Filter.chainOf connective chain (some left) nodes = .ok filter) :
    MakesUp length (.chain connective) first stop filter := by
  induction h using Matches.again_induction generalizing left with
  | last =>
    cases hChain
    exact hLeft
  | @more start _ _ _ _ hRound _ ih =>
    have hRoundLe := hRound.length_le
    have hSkipLe := Mode.initial.length_skip_le filterGrammar.isBlank start
    obtain ⟨_, middle, operand, hKeyword, hOperand, rfl⟩ := hRound.of_seq
    have hKeywordLe := hKeyword.length_le
    have hMiddleLe := Mode.initial.length_skip_le filterGrammar.isBlank middle
    obtain ⟨keyword, rfl, hLeaf⟩ := exists_keyword hKeyword
    have hDelimiter : Filter.isDelimiter keyword.rule = true := by
      rw [hLeaf.rule_eq, Filter.isDelimiter_keyword]
    rw [List.append_assoc, List.singleton_append, Filter.chainOf_delimiter hDelimiter] at hChain
    obtain ⟨right, hRight, hJoined⟩ := (hasShape_operand hOperand).exists_joinsOperand hChain
    exact ih (by omega) (hLeft.join hKeyword (hOperands (by omega) hOperand hRight)) hJoined

private theorem makesUp_of_body (hOperands : OperandsMakeUp length bound connective)
    (hBound : start.rest.length ≤ bound)
    (h : filterGrammar.Matches length (.once connective.chainRule.body) .initial start nodes stop)
    (hChain : Filter.chainOf connective chain none nodes = .ok filter) :
    MakesUp length (.chain connective) start stop filter := by
  rw [Connective.body_chainRule] at h
  obtain ⟨_, middle, _, hOperand, hOthers, rfl⟩ := h.of_seq
  obtain ⟨left, hLeft, hJoined⟩ := (hasShape_operand hOperand).exists_joinsOperand hChain
  have hFirst : MakesUp length (.chain connective) start middle left :=
    .first (hOperands hBound hOperand hLeft)
  rcases hOthers.of_many with ⟨rfl, rfl⟩ | hRounds
  · cases hJoined
    exact hFirst.gap
  · exact makesUp_of_rounds hOperands (Nat.le_trans hOperand.length_le hBound) hFirst hRounds hJoined

private theorem makesUp_of_group (hOperands : OperandsMakeUp length bound .or)
    (hBound : start.rest.length ≤ bound + 1)
    (h : filterGrammar.Matches length (.once (.rule .group)) .initial start nodes stop)
    (hJoins : JoinsOperand filter nodes) : MakesUp length (.operand .and) start stop filter := by
  obtain ⟨_, hBody, rfl⟩ := h.of_rule
  obtain ⟨_, middle, _, hLeft, hInner, rfl⟩ := hBody.of_seq
  obtain ⟨_, last, _, hFilter, hRight, rfl⟩ := hInner.of_seq
  have hLeftLt := hLeft.length_lt filterGrammar_ranked rfl
  have hMiddleLe := Mode.initial.length_skip_le filterGrammar.isBlank middle
  obtain ⟨left, rfl, hLeftLeaf⟩ := exists_isLeaf_of_literal hLeft rfl rfl rfl
  obtain ⟨right, rfl, hRightLeaf⟩ := exists_isLeaf_of_literal hRight rfl rfl rfl
  obtain ⟨parts, hChain, rfl⟩ := hFilter.of_rule
  have hNode := hJoins.ofNode_enclosed (by rw [hLeftLeaf.rule_eq]; rfl) rfl
    (by rw [hRightLeaf.rule_eq]; rfl)
  change Filter.ofNode (.node .disjunction _ _ parts) = _ at hNode
  rw [Filter.ofNode] at hNode
  exact .group hLeft
    (makesUp_of_body hOperands (Nat.le_trans hMiddleLe (by omega)) hChain hNode) hRight

private theorem operandsMakeUp (length bound : Nat) (connective : Connective) :
    OperandsMakeUp length bound connective := by
  -- The induction is on the text that is left: a parenthesis takes a character.
  induction bound generalizing connective with
  | zero =>
    intro start stop nodes filter hBound h _
    have hLt := h.length_lt filterGrammar_ranked (by cases connective <;> rfl)
    omega
  | succ bound ih =>
    have hFactors : OperandsMakeUp length (bound + 1) .and := by
      intro start stop nodes filter hBound h hJoins
      obtain ⟨_, hParts, rfl⟩ := h.of_rule
      rcases hParts.of_choice with hGroup | hSimple
      · exact makesUp_of_group (ih .or) hBound hGroup hJoins
      · obtain ⟨node, rfl, hRule⟩ := exists_node_of_matchesSimple hSimple
        exact .simple hSimple (hJoins.ofNode_eq hRule)
    cases connective with
    | and => exact @hFactors
    | or =>
      intro start stop nodes filter hBound h hJoins
      obtain ⟨parts, hChain, rfl⟩ := h.of_rule
      have hNode := hJoins.ofNode_eq rfl
      change Filter.ofNode (.node .conjunction start stop parts) = _ at hNode
      rw [Filter.ofNode] at hNode
      exact .conjunction (makesUp_of_body hFactors hBound hChain hNode)

end Chains

/-- What a text that spells a filter comes to, with gaps around it, makes up the filter. -/
theorem Filter.exists_makesUp_of_parse {source : String} (h : parse source = .ok filter) :
    ∃ start stop, start.StandsIn source.toList ∧
      start.rest = Mode.initial.behindGap isGap source.toList ∧
      Mode.initial.behindGap isGap stop.rest = [] ∧
      MakesUp source.toList.length (.chain .or) start stop filter := by
  obtain ⟨-, start, stop, parts, hStands, hStart, hMatches, hStop, hChain⟩ :=
    exists_disjunction_of_parse h
  obtain ⟨operands, hBody, hShown⟩ := hMatches.of_rule
  have hParts : [Node.node .disjunction start stop parts] =
    [.node .disjunction start stop operands] := hShown
  obtain rfl : parts = operands := by simpa using hParts
  exact ⟨start, stop, hStands, hStart, hStop,
    makesUp_of_body (operandsMakeUp _ _ .or) (Nat.le_refl _) hBody hChain⟩

end RowFilter
