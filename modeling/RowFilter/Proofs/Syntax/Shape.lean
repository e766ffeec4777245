import RowFilter.Filter.Basic
import RowFilter.Proofs.Grammar.Matches
import RowFilter.Proofs.Syntax.Ranking

/-! The shapes of the matches that filters show. Silent rules leave only
their parts, so a parenthesized filter stands among the operands of a chain
as three matches, and a column is the match of its name however many
backticks surround it. -/

namespace RowFilter

open Grammar

namespace Connective

def keyword : Connective → Rule
  | and => .keywordAnd
  | or => .keywordOr

def operandRule : Connective → Rule
  | and => .factor
  | or => .conjunction

def chainRule : Connective → Rule
  | and => .conjunction
  | or => .disjunction

theorem body_chainRule (connective : Connective) :
    connective.chainRule.body = .seq (.rule connective.operandRule)
      (.many (.seq (.rule connective.keyword) (.rule connective.operandRule))) := by
  cases connective <;> rfl

end Connective

structure IsLeaf (length : Nat) (rule : Rule) (node : Node Rule) : Prop where
  rule_eq : node.rule = rule
  parts_eq : node.parts = []
  matches_body : ∃ mode, filterGrammar.Matches length (.once rule.body) (rule.kind.inside mode)
    node.start [] node.stop

/-- A quoted text. Its only part is the match between the quotes. -/
structure IsString (length : Nat) (node : Node Rule) : Prop where
  rule_eq : node.rule = .string
  exists_part : ∃ part, node.parts = [part] ∧
    (IsLeaf length .doubleQuoted part ∨ IsLeaf length .singleQuoted part)

def IsLiteral (length : Nat) (node : Node Rule) : Prop :=
  IsLeaf length .number node ∨ IsString length node

/-- Values behind commas. -/
inductive HasMoreValues (length : Nat) : List (Node Rule) → Prop where
  | last : HasMoreValues length []
  | more {comma value : Node Rule} {others : List (Node Rule)}
      (hComma : IsLeaf length .comma comma) (hValue : IsLiteral length value)
      (hOthers : HasMoreValues length others) : HasMoreValues length (comma :: value :: others)

/-- The parts of a list of values. -/
inductive HasValues (length : Nat) : List (Node Rule) → Prop where
  | values {left value right : Node Rule} {others : List (Node Rule)}
      (hLeft : IsLeaf length .leftParen left) (hValue : IsLiteral length value)
      (hOthers : HasMoreValues length others) (hRight : IsLeaf length .rightParen right) :
      HasValues length (left :: value :: (others ++ [right]))

inductive IsCondition (length : Nat) : Node Rule → Prop where
  | comparison {column symbol operand : Node Rule} {start stop : Cursor}
      (hColumn : IsLeaf length .name column) (hSymbol : IsLeaf length .comparisonSymbol symbol)
      (hOperand : IsLiteral length operand ∨ IsLeaf length .name operand) :
      IsCondition length (.node .comparison start stop [column, symbol, operand])
  | nullCheck {column test : Node Rule} {start stop : Cursor}
      (hColumn : IsLeaf length .name column)
      (hTest : IsLeaf length .isNotNull test ∨ IsLeaf length .isNull test) :
      IsCondition length (.node .nullCheck start stop [column, test])
  | inList {column keyword : Node Rule} {values : List (Node Rule)}
      {start stop valuesStart valuesStop : Cursor}
      (hColumn : IsLeaf length .name column) (hKeyword : IsLeaf length .keywordIn keyword)
      (hValues : HasValues length values) :
      IsCondition length (.node .inList start stop
        [column, keyword, .node .literalList valuesStart valuesStop values])
  | notInList {column keyword : Node Rule} {values : List (Node Rule)}
      {start stop valuesStart valuesStop : Cursor}
      (hColumn : IsLeaf length .name column) (hKeyword : IsLeaf length .keywordNotIn keyword)
      (hValues : HasValues length values) :
      IsCondition length (.node .notInList start stop
        [column, keyword, .node .literalList valuesStart valuesStop values])

/-- What some matches are a part of. -/
inductive Level where
  /-- An operand of a connective. -/
  | operand (connective : Connective)
  /-- The operands of a connective behind the first one. -/
  | rest (connective : Connective)
  /-- All operands of a connective. -/
  | chain (connective : Connective)

/-- The matches that filters consist of. -/
inductive HasShape (length : Nat) : Level → List (Node Rule) → Prop where
  | condition {node : Node Rule} (hNode : IsCondition length node) :
      HasShape length (.operand .and) [node]
  | negation {keyword node : Node Rule} {start stop : Cursor}
      (hKeyword : IsLeaf length .keywordNot keyword) (hNode : IsCondition length node) :
      HasShape length (.operand .and) [.node .negation start stop [keyword, node]]
  | group {left right : Node Rule} {parts : List (Node Rule)} {start stop : Cursor}
      (hLeft : IsLeaf length .leftParen left) (hParts : HasShape length (.chain .or) parts)
      (hRight : IsLeaf length .rightParen right) :
      HasShape length (.operand .and) [left, .node .disjunction start stop parts, right]
  | conjunction {parts : List (Node Rule)} {start stop : Cursor}
      (hParts : HasShape length (.chain .and) parts) :
      HasShape length (.operand .or) [.node .conjunction start stop parts]
  | last {connective : Connective} : HasShape length (.rest connective) []
  | more {connective : Connective} {keyword : Node Rule} {operand others : List (Node Rule)}
      (hKeyword : IsLeaf length connective.keyword keyword)
      (hOperand : HasShape length (.operand connective) operand)
      (hOthers : HasShape length (.rest connective) others) :
      HasShape length (.rest connective) (keyword :: (operand ++ others))
  | chain {connective : Connective} {operand others : List (Node Rule)}
      (hOperand : HasShape length (.operand connective) operand)
      (hOthers : HasShape length (.rest connective) others) :
      HasShape length (.chain connective) (operand ++ others)

section Leaves

variable {length : Nat} {mode : Mode} {start stop : Cursor} {nodes : List (Node Rule)}

private theorem exists_isLeaf {rule : Rule}
    (h : filterGrammar.Matches length (.once (.rule rule)) mode start nodes stop)
    (hShows : filterGrammar.shows rule mode = true)
    (hBody : ∀ {parts}, filterGrammar.Matches length (.once rule.body) (rule.kind.inside mode)
      start parts stop → parts = []) :
    ∃ node, nodes = [node] ∧ IsLeaf length rule node := by
  obtain ⟨parts, hParts, rfl⟩ := h.of_rule
  obtain rfl := hBody hParts
  rw [if_pos hShows]
  exact ⟨_, rfl, rfl, rfl, mode, hParts⟩

/-- Atomic rules show leaves. -/
theorem exists_isLeaf_of_atomic {rule : Rule}
    (h : filterGrammar.Matches length (.once (.rule rule)) mode start nodes stop)
    (hKind : rule.kind = .atomic) (hRecords : mode.records = true) :
    ∃ node, nodes = [node] ∧ IsLeaf length rule node := by
  refine exists_isLeaf h ?_ fun hParts => hParts.nodes_eq_nil ?_
  · simp [shows, filterGrammar, hKind, hRecords]
  · simp [hKind, Kind.inside]

/-- Rules of single characters show leaves. -/
theorem exists_isLeaf_of_literal {rule : Rule} {word : String}
    (h : filterGrammar.Matches length (.once (.rule rule)) mode start nodes stop)
    (hKind : rule.kind = .normal) (hBody : rule.body = .literal word)
    (hRecords : mode.records = true) :
    ∃ node, nodes = [node] ∧ IsLeaf length rule node := by
  refine exists_isLeaf h ?_ fun hParts => ?_
  · simp [shows, filterGrammar, hKind, hRecords]
  · rw [hBody] at hParts
    exact hParts.literal_nodes

end Leaves

section Conditions

variable {length : Nat} {start stop : Cursor} {nodes : List (Node Rule)}

/-- A column shows its name only. Each pair of backticks around it takes a character. -/
theorem exists_isLeaf_of_column
    (h : filterGrammar.Matches length (.once (.rule .column)) .initial start nodes stop) :
    ∃ node, nodes = [node] ∧ IsLeaf length .name node := by
  induction hLength : start.rest.length using Nat.strongRecOn generalizing start nodes stop with
  | _ n ih =>
    subst hLength
    obtain ⟨parts, hParts, rfl⟩ := h.of_rule
    rcases hParts.of_choice with hQuoted | hName
    · obtain ⟨first, middle, others, hFirst, hOthers, rfl⟩ := hQuoted.of_seq
      obtain ⟨inner, last, final, hInner, hFinal, rfl⟩ := hOthers.of_seq
      obtain ⟨_, hOpen, rfl⟩ := hFirst.of_rule
      obtain ⟨_, hClose, rfl⟩ := hFinal.of_rule
      obtain rfl := hOpen.literal_nodes
      obtain rfl := hClose.literal_nodes
      have hLt := hFirst.length_lt filterGrammar_ranked rfl
      have hSkipLe := Mode.length_skip_le ((filterGrammar.kind .column).inside .initial)
        filterGrammar.isBlank middle
      obtain ⟨node, rfl, hNode⟩ := ih _ (by omega) hInner rfl
      exact ⟨node, rfl, hNode⟩
    · exact exists_isLeaf_of_atomic hName rfl rfl

theorem exists_isString
    (h : filterGrammar.Matches length (.once (.rule .string)) .initial start nodes stop) :
    ∃ node, nodes = [node] ∧ IsString length node := by
  obtain ⟨parts, hParts, rfl⟩ := h.of_rule
  refine ⟨_, rfl, rfl, ?_⟩
  rcases hParts.of_choice with hQuoted | hQuoted
  all_goals
    obtain ⟨_, _, _, hOpen, hOthers, rfl⟩ := hQuoted.of_seq
    obtain ⟨_, _, _, hBody, hClose, rfl⟩ := hOthers.of_seq
    obtain rfl := hOpen.literal_nodes
    obtain rfl := hClose.literal_nodes
    obtain ⟨part, rfl, hPart⟩ := exists_isLeaf_of_atomic hBody rfl rfl
  · exact ⟨part, rfl, .inl hPart⟩
  · exact ⟨part, rfl, .inr hPart⟩

/-- What matches as a literal is a number or a quoted text. -/
theorem exists_isLiteral
    (h : filterGrammar.Matches length (.once (.rule .literal)) .initial start nodes stop) :
    ∃ node, nodes = [node] ∧ IsLiteral length node := by
  obtain ⟨parts, hParts, rfl⟩ := h.of_rule
  rcases hParts.of_choice with hNumber | hString
  · obtain ⟨node, rfl, hNode⟩ := exists_isLeaf_of_atomic hNumber rfl rfl
    exact ⟨node, rfl, .inl hNode⟩
  · obtain ⟨node, rfl, hNode⟩ := exists_isString hString
    exact ⟨node, rfl, .inr hNode⟩

/-- What matches as an operand is a literal or a name. -/
theorem exists_isLiteral_or_isLeaf
    (h : filterGrammar.Matches length (.once (.rule .operand)) .initial start nodes stop) :
    ∃ node, nodes = [node] ∧ (IsLiteral length node ∨ IsLeaf length .name node) := by
  obtain ⟨parts, hParts, rfl⟩ := h.of_rule
  rcases hParts.of_choice with hNumber | hOthers
  · obtain ⟨node, rfl, hNode⟩ := exists_isLeaf_of_atomic hNumber rfl rfl
    exact ⟨node, rfl, .inl (.inl hNode)⟩
  · rcases hOthers.of_choice with hString | hColumn
    · obtain ⟨node, rfl, hNode⟩ := exists_isString hString
      exact ⟨node, rfl, .inl (.inr hNode)⟩
    · obtain ⟨node, rfl, hNode⟩ := exists_isLeaf_of_column hColumn
      exact ⟨node, rfl, .inr hNode⟩

private theorem hasMoreValues
    (h : filterGrammar.Matches length (.again (.seq (.rule .comma) (.rule .literal))) .initial
      start nodes stop) :
    HasMoreValues length nodes := by
  induction h using Matches.again_induction with
  | last => exact .last
  | more _ hRound _ ih =>
    obtain ⟨_, _, _, hComma, hLiteral, rfl⟩ := hRound.of_seq
    obtain ⟨comma, rfl, hCommaLeaf⟩ := exists_isLeaf_of_literal hComma rfl rfl rfl
    obtain ⟨value, rfl, hValue⟩ := exists_isLiteral hLiteral
    exact .more hCommaLeaf hValue ih

/-- What matches as a list has values. -/
theorem exists_hasValues
    (h : filterGrammar.Matches length (.once (.rule .literalList)) .initial start nodes stop) :
    ∃ parts, nodes = [.node .literalList start stop parts] ∧ HasValues length parts := by
  obtain ⟨parts, hParts, rfl⟩ := h.of_rule
  refine ⟨parts, rfl, ?_⟩
  obtain ⟨_, _, _, hLeft, hInner, rfl⟩ := hParts.of_seq
  obtain ⟨_, _, _, hLiteral, hTail, rfl⟩ := hInner.of_seq
  obtain ⟨_, _, _, hMore, hRight, rfl⟩ := hTail.of_seq
  obtain ⟨left, rfl, hLeftLeaf⟩ := exists_isLeaf_of_literal hLeft rfl rfl rfl
  obtain ⟨value, rfl, hValue⟩ := exists_isLiteral hLiteral
  obtain ⟨right, rfl, hRightLeaf⟩ := exists_isLeaf_of_literal hRight rfl rfl rfl
  refine .values hLeftLeaf hValue ?_ hRightLeaf
  rcases hMore.of_many with ⟨rfl, -⟩ | hRounds
  · exact .last
  · exact hasMoreValues hRounds

private theorem exists_membership {keyword : Rule}
    (h : filterGrammar.Matches length
      (.once (Rule.sequence (.rule .column) [.rule keyword, .rule .literalList])) .initial
      start nodes stop) (hKind : keyword.kind = .atomic) :
    ∃ column word valuesStart valuesStop values,
      nodes = [column, word, .node .literalList valuesStart valuesStop values] ∧
      IsLeaf length .name column ∧ IsLeaf length keyword word ∧ HasValues length values := by
  obtain ⟨_, _, _, hColumn, hOthers, rfl⟩ := h.of_seq
  obtain ⟨_, _, _, hKeyword, hList, rfl⟩ := hOthers.of_seq
  obtain ⟨column, rfl, hColumnLeaf⟩ := exists_isLeaf_of_column hColumn
  obtain ⟨word, rfl, hWordLeaf⟩ := exists_isLeaf_of_atomic hKeyword hKind rfl
  obtain ⟨values, rfl, hValues⟩ := exists_hasValues hList
  exact ⟨column, word, _, _, values, rfl, hColumnLeaf, hWordLeaf, hValues⟩

/-- What matches as a condition has the form of one. -/
theorem exists_isCondition
    (h : filterGrammar.Matches length (.once (.rule .condition)) .initial start nodes stop) :
    ∃ node, nodes = [node] ∧ IsCondition length node := by
  obtain ⟨_, hParts, rfl⟩ := h.of_rule
  rcases hParts.of_choice with hNull | hParts
  · obtain ⟨_, hBody, rfl⟩ := hNull.of_rule
    obtain ⟨_, _, _, hColumn, hTest, rfl⟩ := hBody.of_seq
    obtain ⟨column, rfl, hColumnLeaf⟩ := exists_isLeaf_of_column hColumn
    rcases hTest.of_choice with hTest | hTest
    all_goals obtain ⟨test, rfl, hTestLeaf⟩ := exists_isLeaf_of_atomic hTest rfl rfl
    · exact ⟨_, rfl, .nullCheck hColumnLeaf (.inl hTestLeaf)⟩
    · exact ⟨_, rfl, .nullCheck hColumnLeaf (.inr hTestLeaf)⟩
  rcases hParts.of_choice with hNotIn | hParts
  · obtain ⟨_, hBody, rfl⟩ := hNotIn.of_rule
    obtain ⟨column, word, _, _, values, rfl, hColumn, hWord, hValues⟩ :=
      exists_membership hBody rfl
    exact ⟨_, rfl, .notInList hColumn hWord hValues⟩
  rcases hParts.of_choice with hIn | hComparison
  · obtain ⟨_, hBody, rfl⟩ := hIn.of_rule
    obtain ⟨column, word, _, _, values, rfl, hColumn, hWord, hValues⟩ :=
      exists_membership hBody rfl
    exact ⟨_, rfl, .inList hColumn hWord hValues⟩
  · obtain ⟨_, hBody, rfl⟩ := hComparison.of_rule
    obtain ⟨_, _, _, hColumn, hOthers, rfl⟩ := hBody.of_seq
    obtain ⟨_, _, _, hSymbol, hOperand, rfl⟩ := hOthers.of_seq
    obtain ⟨column, rfl, hColumnLeaf⟩ := exists_isLeaf_of_column hColumn
    obtain ⟨symbol, rfl, hSymbolLeaf⟩ := exists_isLeaf_of_atomic hSymbol rfl rfl
    obtain ⟨operand, rfl, hOperandShape⟩ := exists_isLiteral_or_isLeaf hOperand
    exact ⟨_, rfl, .comparison hColumnLeaf hSymbolLeaf hOperandShape⟩

end Conditions

section Chains

variable {length : Nat} {start stop : Cursor} {nodes : List (Node Rule)}

/-- The operands of a connective have their shape at texts below a bound. -/
private def ShapedBelow (length bound : Nat) (connective : Connective) : Prop :=
  ∀ {start stop : Cursor} {nodes : List (Node Rule)}, start.rest.length < bound →
    filterGrammar.Matches length (.once (.rule connective.operandRule)) .initial
      start nodes stop → HasShape length (.operand connective) nodes

theorem exists_keyword {connective : Connective}
    (h : filterGrammar.Matches length (.once (.rule connective.keyword)) .initial
      start nodes stop) :
    ∃ node, nodes = [node] ∧ IsLeaf length connective.keyword node := by
  cases connective <;> exact exists_isLeaf_of_atomic h rfl rfl

private theorem hasShape_rest {connective : Connective} {bound : Nat}
    (hOperands : ShapedBelow length bound connective) (hBound : start.rest.length < bound)
    (h : filterGrammar.Matches length
      (.again (.seq (.rule connective.keyword) (.rule connective.operandRule))) .initial
      start nodes stop) :
    HasShape length (.rest connective) nodes := by
  induction h using Matches.again_induction with
  | last => exact .last
  | @more start _ _ _ _ hRound _ ih =>
    have hRoundLe := hRound.length_le
    have hSkipLe := Mode.initial.length_skip_le filterGrammar.isBlank start
    obtain ⟨_, behind, _, hKeyword, hOperand, rfl⟩ := hRound.of_seq
    have hKeywordLe := hKeyword.length_le
    have hBehindLe := Mode.initial.length_skip_le filterGrammar.isBlank behind
    obtain ⟨keyword, rfl, hLeaf⟩ := exists_keyword hKeyword
    exact .more hLeaf (hOperands (by omega) hOperand) (ih (by omega))

private theorem hasShape_chain {connective : Connective} {bound : Nat}
    (hOperands : ShapedBelow length bound connective) (hBound : start.rest.length < bound)
    (h : filterGrammar.Matches length (.once connective.chainRule.body) .initial
      start nodes stop) :
    HasShape length (.chain connective) nodes := by
  rw [Connective.body_chainRule] at h
  obtain ⟨operand, middle, others, hOperand, hOthers, rfl⟩ := h.of_seq
  refine .chain (hOperands hBound hOperand) ?_
  rcases hOthers.of_many with ⟨rfl, -⟩ | hRounds
  · exact .last
  · exact hasShape_rest hOperands (Nat.lt_of_le_of_lt hOperand.length_le hBound) hRounds

private theorem hasShape_factor {bound : Nat} (hGroups : ShapedBelow length bound .or)
    (hBound : start.rest.length ≤ bound)
    (h : filterGrammar.Matches length (.once (.rule .factor)) .initial start nodes stop) :
    HasShape length (.operand .and) nodes := by
  obtain ⟨_, hParts, rfl⟩ := h.of_rule
  rcases hParts.of_choice with hGroup | hParts
  · obtain ⟨_, hBody, rfl⟩ := hGroup.of_rule
    obtain ⟨_, middle, _, hLeft, hInner, rfl⟩ := hBody.of_seq
    obtain ⟨_, _, _, hFilter, hRight, rfl⟩ := hInner.of_seq
    have hLt := hLeft.length_lt filterGrammar_ranked rfl
    have hSkipLe := Mode.initial.length_skip_le filterGrammar.isBlank middle
    obtain ⟨left, rfl, hLeftLeaf⟩ := exists_isLeaf_of_literal hLeft rfl rfl rfl
    obtain ⟨right, rfl, hRightLeaf⟩ := exists_isLeaf_of_literal hRight rfl rfl rfl
    obtain ⟨parts, hChain, rfl⟩ := hFilter.of_rule
    exact .group hLeftLeaf (hasShape_chain hGroups (Nat.lt_of_le_of_lt hSkipLe (by omega)) hChain)
      hRightLeaf
  rcases hParts.of_choice with hNegation | hCondition
  · obtain ⟨_, hBody, rfl⟩ := hNegation.of_rule
    obtain ⟨_, _, _, hKeyword, hCondition, rfl⟩ := hBody.of_seq
    obtain ⟨keyword, rfl, hLeaf⟩ := exists_isLeaf_of_atomic hKeyword rfl rfl
    obtain ⟨node, rfl, hNode⟩ := exists_isCondition hCondition
    exact .negation hLeaf hNode
  · obtain ⟨node, rfl, hNode⟩ := exists_isCondition hCondition
    exact .condition hNode

private theorem shapedBelow (length bound : Nat) (connective : Connective) :
    ShapedBelow length bound connective := by
  -- The induction is on the text that is left: a parenthesis takes a character.
  induction bound generalizing connective with
  | zero =>
    intro _ _ _ hBound
    omega
  | succ bound ih =>
    have hFactors : ShapedBelow length (bound + 1) .and := fun hBound h =>
      hasShape_factor (ih .or) (Nat.le_of_lt_succ hBound) h
    cases connective with
    | and => exact @hFactors
    | or =>
      intro _ _ _ hBound h
      obtain ⟨parts, hChain, rfl⟩ := h.of_rule
      exact .conjunction (hasShape_chain hFactors hBound hChain)

/-- What matches as an operand of a connective has its shape. -/
theorem hasShape_operand {connective : Connective}
    (h : filterGrammar.Matches length (.once (.rule connective.operandRule)) .initial
      start nodes stop) : HasShape length (.operand connective) nodes :=
  shapedBelow _ _ connective (Nat.lt_succ_self _) h

/-- The match of a filter is a chain of disjuncts. -/
theorem exists_hasShape
    (h : filterGrammar.Matches length (.once (.rule .disjunction)) .initial start nodes stop) :
    ∃ parts, nodes = [.node .disjunction start stop parts] ∧
      HasShape length (.chain .or) parts := by
  obtain ⟨parts, hChain, rfl⟩ := h.of_rule
  exact ⟨parts, rfl, hasShape_chain (shapedBelow _ _ .or) (Nat.lt_succ_self _) hChain⟩

end Chains

end RowFilter
