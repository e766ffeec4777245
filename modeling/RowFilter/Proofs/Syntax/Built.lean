import RowFilter.Proofs.Syntax.Parse

/-! Filters beside the matches that they are built from. The relations follow
the shape of the matches, so what holds of a filter that a text spells is
proved from the matches of its parts, without the builder. -/

namespace RowFilter

open Grammar Text

inductive LiteralOf (length : Nat) : Literal → Node Rule → Prop where
  | number {node : Node Rule} {literal : Literal} (hNode : IsLeaf length .number node)
      (hLiteral : Literal.ofNumber? node.text = some literal) : LiteralOf length literal node
  | string {node : Node Rule} (hNode : IsString length node) :
      LiteralOf length (.text (quotedText node)) node

inductive OperandOf (length : Nat) : Operand → Node Rule → Prop where
  | literal {value : Literal} {node : Node Rule} (hValue : LiteralOf length value node) :
      OperandOf length (.literal value) node
  | column {node : Node Rule} (hNode : IsLeaf length .name node) :
      OperandOf length (.column (.ofNode node)) node

/-- The values behind commas. -/
inductive MoreValuesOf (length : Nat) : List Literal → List (Node Rule) → Prop where
  | last : MoreValuesOf length [] []
  | more {value : Literal} {values : List Literal} {comma node : Node Rule}
      {others : List (Node Rule)} (hComma : IsLeaf length .comma comma)
      (hValue : LiteralOf length value node) (hOthers : MoreValuesOf length values others) :
      MoreValuesOf length (value :: values) (comma :: node :: others)

inductive ValuesOf (length : Nat) : List Literal → List (Node Rule) → Prop where
  | values {value : Literal} {values : List Literal} {left node right : Node Rule}
      {others : List (Node Rule)} (hLeft : IsLeaf length .leftParen left)
      (hValue : LiteralOf length value node) (hOthers : MoreValuesOf length values others)
      (hRight : IsLeaf length .rightParen right) :
      ValuesOf length (value :: values) (left :: node :: (others ++ [right]))

inductive ConditionOf (length : Nat) : Condition → Node Rule → Prop where
  | comparison {column symbol node : Node Rule} {start stop : Cursor} {operator : Comparison}
      {right : Operand} (hColumn : IsLeaf length .name column)
      (hSymbol : IsLeaf length .comparisonSymbol symbol)
      (hOperator : Comparison.ofSymbol? symbol.text = some operator)
      (hRight : OperandOf length right node) :
      ConditionOf length (.comparison (.ofNode column) operator right)
        (.node .comparison start stop [column, symbol, node])
  | isNull {column test : Node Rule} {start stop : Cursor}
      (hColumn : IsLeaf length .name column) (hTest : IsLeaf length .isNull test) :
      ConditionOf length (.nullCheck (.ofNode column) false)
        (.node .nullCheck start stop [column, test])
  | isNotNull {column test : Node Rule} {start stop : Cursor}
      (hColumn : IsLeaf length .name column) (hTest : IsLeaf length .isNotNull test) :
      ConditionOf length (.nullCheck (.ofNode column) true)
        (.node .nullCheck start stop [column, test])
  | inList {column keyword : Node Rule} {values : List Literal} {nodes : List (Node Rule)}
      {start stop valuesStart valuesStop : Cursor} (hColumn : IsLeaf length .name column)
      (hKeyword : IsLeaf length .keywordIn keyword) (hValues : ValuesOf length values nodes) :
      ConditionOf length (.membership (.ofNode column) false values)
        (.node .inList start stop
          [column, keyword, .node .literalList valuesStart valuesStop nodes])
  | notInList {column keyword : Node Rule} {values : List Literal} {nodes : List (Node Rule)}
      {start stop valuesStart valuesStop : Cursor} (hColumn : IsLeaf length .name column)
      (hKeyword : IsLeaf length .keywordNotIn keyword) (hValues : ValuesOf length values nodes) :
      ConditionOf length (.membership (.ofNode column) true values)
        (.node .notInList start stop
          [column, keyword, .node .literalList valuesStart valuesStop nodes])

/-- The filter of the operands of a chain, which are some matches one behind the other. -/
inductive BuiltFrom (length : Nat) : Filter → List (Node Rule) → Prop where
  | condition {c : Condition} {node : Node Rule} {span : Span} (hNode : ConditionOf length c node) :
      BuiltFrom length (.condition c span) [node]
  | negation {c : Condition} {keyword node : Node Rule} {inner span : Span} {start stop : Cursor}
      (hKeyword : IsLeaf length .keywordNot keyword) (hNode : ConditionOf length c node) :
      BuiltFrom length (.not (.condition c inner) span) [.node .negation start stop [keyword, node]]
  | group {f : Filter} {left right : Node Rule} {parts : List (Node Rule)} {start stop : Cursor}
      (hLeft : IsLeaf length .leftParen left) (hParts : BuiltFrom length f parts)
      (hRight : IsLeaf length .rightParen right) :
      BuiltFrom length f [left, .node .disjunction start stop parts, right]
  | conjunction {f : Filter} {parts : List (Node Rule)} {start stop : Cursor}
      (hParts : BuiltFrom length f parts) :
      BuiltFrom length f [.node .conjunction start stop parts]
  | join {connective : Connective} {left right : Filter} {keyword : Node Rule}
      {before behind : List (Node Rule)} {span : Span}
      (hLeft : BuiltFrom length left before) (hKeyword : IsLeaf length connective.keyword keyword)
      (hRight : BuiltFrom length right behind) :
      BuiltFrom length (connective.join left right span) (before ++ keyword :: behind)

section Conditions

variable {length : Nat} {node : Node Rule} {nodes : List (Node Rule)}

theorem IsLiteral.literalOf {literal : Literal} (h : IsLiteral length node)
    (hNode : Literal.ofNode node = .ok literal) : LiteralOf length literal node := by
  rcases h with hNumber | hString
  · rw [Literal.ofNode, hNumber.rule_eq] at hNode
    dsimp only at hNode
    split at hNode
    · next hLiteral =>
      cases hNode
      exact .number hNumber hLiteral
    · cases hNode
  · rw [Literal.ofNode, hString.rule_eq] at hNode
    cases hNode
    exact .string hString

private theorem operandOf {right : Operand} (h : IsLiteral length node ∨ IsLeaf length .name node)
    (hNode : Operand.ofNode node = .ok right) : OperandOf length right node := by
  rcases h with hLiteral | hName
  · rw [Operand.ofNode_literal hLiteral] at hNode
    obtain ⟨value, hValue, rfl⟩ := exists_of_map_eq_ok hNode
    exact .literal (hLiteral.literalOf hValue)
  · rw [Operand.ofNode, hName.rule_eq] at hNode
    cases hNode
    exact .column hName

private theorem exists_literalOf {values : List Literal} (h : IsLiteral length node)
    (hNodes : literalsOf (node :: nodes) = .ok values) :
    ∃ value others, values = value :: others ∧ LiteralOf length value node ∧
      literalsOf nodes = .ok others := by
  rw [literalsOf_cons h.rule_eq] at hNodes
  obtain ⟨value, hValue, hValues⟩ := exists_of_bind_eq_ok hNodes
  obtain ⟨others, hOthers, rfl⟩ := exists_of_map_eq_ok hValues
  exact ⟨value, others, rfl, h.literalOf hValue, hOthers⟩

private theorem moreValuesOf {values : List Literal} {right : Node Rule}
    (h : HasMoreValues length nodes) (hRight : IsLeaf length .rightParen right)
    (hNodes : literalsOf (nodes ++ [right]) = .ok values) : MoreValuesOf length values nodes := by
  induction h generalizing values with
  | last =>
    rw [List.nil_append, literalsOf_mark (by simp [hRight.rule_eq])] at hNodes
    cases hNodes
    exact .last
  | @more comma value others hComma hValue _ ih =>
    rw [List.cons_append, literalsOf_mark (by simp [hComma.rule_eq])] at hNodes
    obtain ⟨literal, literals, rfl, hLiteral, hOthers⟩ := exists_literalOf hValue hNodes
    exact .more hComma hLiteral (ih hOthers)

private theorem valuesOf {values : List Literal} (h : HasValues length nodes)
    (hNodes : literalsOf nodes = .ok values) : ValuesOf length values nodes := by
  cases h with
  | values hLeft hValue hOthers hRight =>
    rw [literalsOf_mark (by simp [hLeft.rule_eq])] at hNodes
    obtain ⟨literal, literals, rfl, hLiteral, hMore⟩ := exists_literalOf hValue hNodes
    exact .values hLeft hLiteral (moreValuesOf hOthers hRight hMore) hRight

private theorem exists_values {column keyword : Node Rule} {rule kind : Rule} {f : Filter}
    {start stop valuesStart valuesStop : Cursor} {negated : Bool}
    (hKeyword : IsLeaf length rule keyword) (hRule : rule ≠ .literalList)
    (hValues : HasValues length nodes)
    (h : Filter.ofCondition (.node kind start stop
        [column, keyword, .node .literalList valuesStart valuesStop nodes])
      (Condition.membershipOf negated (.node kind start stop
        [column, keyword, .node .literalList valuesStart valuesStop nodes])) = .ok f) :
    ∃ values span, f = .condition (.membership (.ofNode column) negated values) span ∧
      ValuesOf length values nodes := by
  rw [Condition.membershipOf_eq (hKeyword.rule_eq ▸ hRule)] at h
  obtain ⟨_, hCondition, rfl⟩ := exists_of_map_eq_ok h
  obtain ⟨values, hLiterals, rfl⟩ := exists_of_map_eq_ok hCondition
  exact ⟨values, _, rfl, valuesOf hValues hLiterals⟩

/-- What the match of a condition builds is a condition. -/
theorem IsCondition.exists_conditionOf {f : Filter} (h : IsCondition length node)
    (hNode : Filter.ofNode node = .ok f) :
    ∃ c span, f = .condition c span ∧ ConditionOf length c node := by
  cases h with
  | @comparison column symbol operand start stop hColumn hSymbol hOperand =>
    obtain ⟨operator, hOperator⟩ := hSymbol.exists_operator
    rw [Filter.ofNode] at hNode
    obtain ⟨_, hCondition, rfl⟩ := exists_of_map_eq_ok hNode
    simp only [Condition.comparisonOf, Node.parts, hOperator] at hCondition
    obtain ⟨right, hRight, rfl⟩ := exists_of_map_eq_ok hCondition
    exact ⟨_, _, rfl, .comparison hColumn hSymbol hOperator (operandOf hOperand hRight)⟩
  | @nullCheck column test start stop hColumn hTest =>
    rw [Filter.ofNode] at hNode
    cases hNode
    rcases hTest with hTest | hTest
    · have hNegated : decide (test.rule = .isNotNull) = true := decide_eq_true hTest.rule_eq
      rw [hNegated]
      exact ⟨_, _, rfl, .isNotNull hColumn hTest⟩
    · have hNegated : decide (test.rule = .isNotNull) = false := by
        rw [hTest.rule_eq]
        rfl
      rw [hNegated]
      exact ⟨_, _, rfl, .isNull hColumn hTest⟩
  | inList hColumn hKeyword hValues =>
    rw [Filter.ofNode] at hNode
    obtain ⟨values, span, rfl, hBuilt⟩ := exists_values hKeyword (by decide) hValues hNode
    exact ⟨_, span, rfl, .inList hColumn hKeyword hBuilt⟩
  | notInList hColumn hKeyword hValues =>
    rw [Filter.ofNode] at hNode
    obtain ⟨values, span, rfl, hBuilt⟩ := exists_values hKeyword (by decide) hValues hNode
    exact ⟨_, span, rfl, .notInList hColumn hKeyword hBuilt⟩

end Conditions

/-- What a level builds from its matches, whatever else the chain holds that they are a part of. -/
private def Level.IsBuilt (length : Nat) : Level → List (Node Rule) → Prop
  | .operand _, nodes =>
    ∀ connective chain joined others f,
      Filter.chainOf connective chain joined (nodes ++ others) = .ok f →
      ∃ operand, BuiltFrom length operand nodes ∧
        Filter.chainOf connective chain (some (connective.attach joined operand)) others = .ok f
  | .rest connective, nodes =>
    ∀ chain left before f, BuiltFrom length left before →
      Filter.chainOf connective chain (some left) nodes = .ok f →
      BuiltFrom length f (before ++ nodes)
  | .chain connective, nodes =>
    ∀ chain f, Filter.chainOf connective chain none nodes = .ok f → BuiltFrom length f nodes

section Chains

variable {length : Nat} {node : Node Rule} {nodes : List (Node Rule)}

private theorem Level.isBuilt_operand {connective : Connective}
    (hDelimiter : Filter.isDelimiter node.rule = false)
    (hBuilt : ∀ f, Filter.ofNode node = .ok f → BuiltFrom length f [node]) :
    (Level.operand connective).IsBuilt length [node] := by
  intro connective chain joined others f hChain
  rw [List.singleton_append, Filter.chainOf_operand hDelimiter] at hChain
  obtain ⟨operand, hNode, hOthers⟩ := exists_of_bind_eq_ok hChain
  exact ⟨operand, hBuilt operand hNode, hOthers⟩

private theorem HasShape.isBuilt {level : Level} (h : HasShape length level nodes) :
    level.IsBuilt length nodes := by
  induction h with
  | condition hNode =>
    refine Level.isBuilt_operand hNode.isDelimiter_eq_false fun f hf => ?_
    obtain ⟨c, span, rfl, hBuilt⟩ := hNode.exists_conditionOf hf
    exact .condition hBuilt
  | @negation keyword node start stop hKeyword hNode =>
    refine Level.isBuilt_operand rfl fun f hf => ?_
    rw [Filter.ofNode_negation hKeyword hNode] at hf
    obtain ⟨operand, hOperand, rfl⟩ := exists_of_map_eq_ok hf
    obtain ⟨c, span, rfl, hBuilt⟩ := hNode.exists_conditionOf hOperand
    exact .negation hKeyword hBuilt
  | @group left right parts start stop hLeft _ hRight ih =>
    intro connective chain joined others f hChain
    rw [Filter.chainOf_group hLeft hRight] at hChain
    obtain ⟨operand, hNode, hOthers⟩ := exists_of_bind_eq_ok hChain
    rw [Filter.ofNode] at hNode
    exact ⟨operand, .group hLeft (ih _ operand hNode) hRight, hOthers⟩
  | conjunction _ ih =>
    refine Level.isBuilt_operand rfl fun f hf => ?_
    rw [Filter.ofNode] at hf
    exact .conjunction (ih _ f hf)
  | last =>
    intro chain left before f hLeft hChain
    rw [Filter.chainOf] at hChain
    cases hChain
    rwa [List.append_nil]
  | @more connective keyword operand others hKeyword _ _ ihOperand ihOthers =>
    intro chain left before f hLeft hChain
    have hDelimiter : Filter.isDelimiter keyword.rule = true := by
      rw [hKeyword.rule_eq, Filter.isDelimiter_keyword]
    rw [Filter.chainOf_delimiter hDelimiter] at hChain
    obtain ⟨right, hRight, hOthers⟩ := ihOperand _ _ _ _ f hChain
    have hBuilt := ihOthers chain _ _ f (.join hLeft hKeyword hRight) hOthers
    simpa using hBuilt
  | chain _ _ ihOperand ihOthers =>
    intro chain f hChain
    obtain ⟨first, hFirst, hOthers⟩ := ihOperand _ _ _ _ f hChain
    exact ihOthers chain first _ f hFirst hOthers

/-- A chain of disjuncts is built from its parts. -/
theorem HasShape.builtFrom {connective : Connective} {f : Filter}
    (h : HasShape length (.chain connective) nodes)
    (hChain : Filter.chainOf connective node none nodes = .ok f) : BuiltFrom length f nodes :=
  h.isBuilt node f hChain

/-- The match that a text is read as, and from which its filter is built. -/
theorem Filter.exists_builtFrom_of_parse {source : String} {filter : Filter}
    (h : parse source = .ok filter) :
    ∃ start stop parts, start.rest = Mode.initial.behindGap isGap source.toList ∧
      filterGrammar.Matches source.toList.length (.once (.rule .disjunction)) .initial start
        [.node .disjunction start stop parts] stop ∧
      Mode.initial.behindGap isGap stop.rest = [] ∧
      BuiltFrom source.toList.length filter parts := by
  obtain ⟨-, start, stop, parts, -, hStart, hMatches, hStop, hChain⟩ :=
    exists_disjunction_of_parse h
  obtain ⟨operands, hNodes, hShape⟩ := exists_hasShape hMatches
  obtain rfl : parts = operands := by simpa using hNodes
  exact ⟨start, stop, parts, hStart, hMatches, hStop, hShape.builtFrom hChain⟩

end Chains

end RowFilter
