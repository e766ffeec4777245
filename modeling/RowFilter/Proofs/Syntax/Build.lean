import RowFilter.Proofs.Filter.Number
import RowFilter.Proofs.Grammar.Order
import RowFilter.Proofs.Syntax.Number
import RowFilter.Proofs.Syntax.Shape
import RowFilter.Syntax.Tree

/-! Building filters from the matches of the grammar. Matches of the shape
that the grammar shows lack no part, so building them fails at a number that
is too large only, and at the first of these. -/

namespace RowFilter

open Grammar

section Leaves

variable {length : Nat} {node : Node Rule}

/-- What the body of an atomic rule takes is the text of its match. -/
theorem IsLeaf.takes_text {rule : Rule} (h : IsLeaf length rule node)
    (hKind : rule.kind = .atomic) :
    filterGrammar.Takes length rule.body node.start.rest node.text.toList node.stop.rest := by
  obtain ⟨mode, hMatches⟩ := h.matches_body
  rw [hKind] at hMatches
  obtain ⟨pieces, hReads, -, hStop⟩ := hMatches
  rw [Node.text, hStop, String.toList_ofList, Cursor.textTo_past hReads.text_eq, ← hStop]
  exact Reads.takes hReads

/-- The match of a number spells one. -/
theorem IsLeaf.exists_spelling (h : IsLeaf length .number node) :
    ∃ spelling : Spelling, node.text = String.ofList spelling.text := by
  obtain ⟨spelling, hText, -⟩ := exists_spelling_of_takes (takes_rule.2 (h.takes_text rfl))
  exact ⟨spelling, by rw [← hText, String.ofList_toList]⟩

/-- The match of a comparison symbol is the symbol of an operator. -/
theorem IsLeaf.exists_operator (h : IsLeaf length .comparisonSymbol node) :
    ∃ operator, Comparison.ofSymbol? node.text = some operator := by
  suffices hSymbol : ∃ operator : Comparison, node.text = operator.symbol by
    obtain ⟨operator, hText⟩ := hSymbol
    exact ⟨operator, by rw [hText, Comparison.ofSymbol?_symbol]⟩
  rcases takes_choice.1 (h.takes_text rfl) with h | ⟨-, h⟩
  · exact ⟨.notEqual, String.toList_inj.1 (takes_literal.1 h).1⟩
  rcases takes_choice.1 h with h | ⟨-, h⟩
  · exact ⟨.greaterOrEqual, String.toList_inj.1 (takes_literal.1 h).1⟩
  rcases takes_choice.1 h with h | ⟨-, h⟩
  · exact ⟨.lessOrEqual, String.toList_inj.1 (takes_literal.1 h).1⟩
  rcases takes_choice.1 h with h | ⟨-, h⟩
  · exact ⟨.less, String.toList_inj.1 (takes_literal.1 h).1⟩
  rcases takes_choice.1 h with h | ⟨-, h⟩
  · exact ⟨.greater, String.toList_inj.1 (takes_literal.1 h).1⟩
  · exact ⟨.equal, String.toList_inj.1 (takes_literal.1 h).1⟩

end Leaves

/-- Whether a match is of a number that is too large. -/
def exceedsRange (node : Node Rule) : Bool :=
  node.rule = .number && isTooLarge node.text

/-- The first number that is too large among some matches and the matches below them. -/
def firstTooLarge (nodes : List (Node Rule)) : Option (Node Rule) :=
  (Node.preorderAll nodes).find? exceedsRange

section FirstTooLarge

variable {length : Nat} {rule : Rule} {node : Node Rule} {nodes others : List (Node Rule)}

@[simp] theorem firstTooLarge_nil : firstTooLarge [] = none := rfl

/-- The first number of two lists is that of the first list, or else that of the second one. -/
theorem firstTooLarge_append :
    firstTooLarge (nodes ++ others) = (firstTooLarge nodes).or (firstTooLarge others) := by
  rw [firstTooLarge, Node.preorderAll_append, List.find?_append]
  rfl

/-- Only matches of numbers count. -/
theorem firstTooLarge_cons {start stop : Cursor} {parts : List (Node Rule)}
    (h : rule ≠ .number) :
    firstTooLarge (.node rule start stop parts :: others) = firstTooLarge (parts ++ others) := by
  have hExceeds : exceedsRange (.node rule start stop parts) = false := by
    simp only [exceedsRange, Bool.and_eq_false_iff]
    exact .inl (decide_eq_false h)
  rw [firstTooLarge, Node.preorderAll_cons, List.find?_cons_of_neg (by simp [hExceeds]),
    ← Node.preorderAll_append, firstTooLarge]

theorem IsLeaf.firstTooLarge_cons (h : IsLeaf length rule node) (hRule : rule ≠ .number) :
    firstTooLarge (node :: others) = firstTooLarge others := by
  obtain ⟨nodeRule, start, stop, parts⟩ := node
  obtain rfl : nodeRule = rule := h.rule_eq
  obtain rfl : parts = [] := h.parts_eq
  rw [RowFilter.firstTooLarge_cons hRule, List.nil_append]

theorem IsString.firstTooLarge_cons (h : IsString length node) :
    firstTooLarge (node :: others) = firstTooLarge others := by
  obtain ⟨rule, start, stop, parts⟩ := node
  obtain rfl : rule = .string := h.rule_eq
  obtain ⟨part, rfl, hPart⟩ : ∃ part, parts = [part] ∧ _ := h.exists_part
  rcases hPart with hPart | hPart
  · simp [RowFilter.firstTooLarge_cons, hPart.firstTooLarge_cons]
  · simp [RowFilter.firstTooLarge_cons, hPart.firstTooLarge_cons]

end FirstTooLarge

section Results

variable {α β : Type} {result : Except TreeFault α} {value : β}

theorem exists_of_map_eq_ok {f : α → β} (h : result.map f = .ok value) :
    ∃ inner, result = .ok inner ∧ value = f inner := by
  cases result with
  | error => cases h
  | ok inner =>
    cases h
    exact ⟨inner, rfl, rfl⟩

theorem exists_of_bind_eq_ok {next : α → Except TreeFault β} (h : result.bind next = .ok value) :
    ∃ inner, result = .ok inner ∧ next inner = .ok value := by
  cases result with
  | error => cases h
  | ok inner => exact ⟨inner, rfl, h⟩

end Results

/-- Some matches build a value with a property, or else their first number
that is too large is at fault. -/
def Builds {α : Type} (nodes : List (Node Rule)) (P : α → Prop) (result : Except TreeFault α) :
    Prop :=
  match firstTooLarge nodes with
  | some number => result = .error (.atNode (.numberOutOfRange number.text) number)
  | none => ∃ value, result = .ok value ∧ P value

namespace Builds

variable {α β : Type} {nodes others : List (Node Rule)} {P : α → Prop} {Q : β → Prop}
  {result : Except TreeFault α}

theorem ok {value : α} (h : P value) (hNone : firstTooLarge nodes = none) :
    Builds nodes P (.ok value) := by
  rw [Builds, hNone]
  exact ⟨value, rfl, h⟩

theorem map {f : α → β} (h : Builds nodes P result) (hf : ∀ value, P value → Q (f value)) :
    Builds nodes Q (result.map f) := by
  unfold Builds at h ⊢
  split at h
  · next number _ =>
    rw [h]
    rfl
  · obtain ⟨value, rfl, hValue⟩ := h
    exact ⟨f value, rfl, hf value hValue⟩

/-- Matches one behind the other are built one behind the other. -/
theorem bind {next : α → Except TreeFault β} (h : Builds nodes P result)
    (hNext : ∀ value, P value → Builds others Q (next value)) :
    Builds (nodes ++ others) Q (result.bind next) := by
  unfold Builds at h ⊢
  rw [firstTooLarge_append]
  cases hFirst : firstTooLarge nodes with
  | some number =>
    rw [hFirst] at h
    rw [h]
    rfl
  | none =>
    rw [hFirst] at h
    obtain ⟨value, rfl, hValue⟩ := h
    exact hNext value hValue

theorem congr (h : Builds nodes P result) (hFirst : firstTooLarge others = firstTooLarge nodes) :
    Builds others P result := by
  rwa [Builds, hFirst]

end Builds

section Conditions

variable {length : Nat} {node : Node Rule} {nodes : List (Node Rule)}

/-- The match of a literal builds a regular literal. -/
theorem builds_literal (h : IsLiteral length node) :
    Builds [node] Literal.IsRegular (Literal.ofNode node) := by
  rcases h with hNumber | hString
  · have hRule := hNumber.rule_eq
    have hFirst : firstTooLarge [node] = if isTooLarge node.text then some node else none := by
      obtain ⟨rule, start, stop, parts⟩ := node
      obtain rfl : parts = [] := hNumber.parts_eq
      rw [firstTooLarge, Node.preorderAll_cons, Node.preorderAll_nil, List.append_nil,
        List.find?_singleton, exceedsRange, hRule]
      rfl
    obtain ⟨spelling, hText⟩ := hNumber.exists_spelling
    have hNone := @Literal.ofNumber?_eq_none spelling
    rw [← hText] at hNone
    unfold Builds
    rw [hFirst, Literal.ofNode, hRule]
    cases hLiteral : Literal.ofNumber? node.text with
    | none =>
      rw [if_pos (hNone.1 hLiteral)]
    | some literal =>
      rw [if_neg (fun hLarge => by rw [hNone.2 hLarge] at hLiteral; cases hLiteral)]
      exact ⟨literal, rfl, Literal.isRegular_of_ofNumber? hLiteral⟩
  · rw [Literal.ofNode, hString.rule_eq]
    exact .ok trivial hString.firstTooLarge_cons

theorem IsLiteral.rule_eq (h : IsLiteral length node) :
    node.rule = .number ∨ node.rule = .string := by
  rcases h with h | h
  · exact .inl h.rule_eq
  · exact .inr h.rule_eq

/-- A value and the values behind it. -/
theorem literalsOf_cons (h : node.rule = .number ∨ node.rule = .string) :
    literalsOf (node :: nodes) =
      (Literal.ofNode node).bind fun literal => (literalsOf nodes).map (literal :: ·) := by
  rw [literalsOf, if_pos h]
  cases Literal.ofNode node <;> rfl

/-- Commas and parentheses are no values. -/
theorem literalsOf_mark (h : ¬(node.rule = .number ∨ node.rule = .string)) :
    literalsOf (node :: nodes) = literalsOf nodes := by
  rw [literalsOf, if_neg h]

private theorem builds_moreValues {right : Node Rule} (h : HasMoreValues length nodes)
    (hRight : IsLeaf length .rightParen right) :
    Builds (nodes ++ [right]) (fun values => ∀ value ∈ values, value.IsRegular)
      (literalsOf (nodes ++ [right])) := by
  induction h with
  | last =>
    rw [List.nil_append, literalsOf_mark (by simp [hRight.rule_eq])]
    exact .ok nofun (hRight.firstTooLarge_cons (by simp))
  | @more comma value others hComma hValue _ ih =>
    rw [List.cons_append, literalsOf_mark (by simp [hComma.rule_eq]), List.cons_append,
      literalsOf_cons hValue.rule_eq]
    have hBuilds := (builds_literal hValue).bind fun literal hLiteral =>
      ih.map (Q := fun values => ∀ value ∈ values, value.IsRegular) (f := (literal :: ·))
        fun values hValues => List.forall_mem_cons (p := Literal.IsRegular) |>.2 ⟨hLiteral, hValues⟩
    exact hBuilds.congr (hComma.firstTooLarge_cons (by simp))

/-- The matches of a list build its values, of which there is one. -/
theorem builds_values (h : HasValues length nodes) :
    Builds nodes (fun values => values ≠ [] ∧ ∀ value ∈ values, value.IsRegular)
      (literalsOf nodes) := by
  cases h with
  | @values left value right others hLeft hValue hOthers hRight =>
    rw [literalsOf_mark (by simp [hLeft.rule_eq]), literalsOf_cons hValue.rule_eq]
    have hBuilds := (builds_literal hValue).bind fun literal hLiteral =>
      (builds_moreValues hOthers hRight).map
        (Q := fun values => values ≠ [] ∧ ∀ value ∈ values, value.IsRegular)
        (f := (literal :: ·)) fun values hValues =>
          ⟨List.cons_ne_nil _ _, List.forall_mem_cons (p := Literal.IsRegular) |>.2 ⟨hLiteral, hValues⟩⟩
    exact hBuilds.congr (hLeft.firstTooLarge_cons (by simp))

/-- A literal on the right side of a comparison. -/
theorem Operand.ofNode_literal (h : IsLiteral length node) :
    Operand.ofNode node = (Literal.ofNode node).map .literal := by
  have hRule : node.rule ≠ .name := by
    rcases h with h | h <;> rw [h.rule_eq] <;> decide
  unfold Operand.ofNode
  split
  · next hName => exact absurd hName hRule
  · rfl

/-- The match of an operand builds a regular operand. -/
theorem builds_operand (h : IsLiteral length node ∨ IsLeaf length .name node) :
    Builds [node] Operand.IsRegular (Operand.ofNode node) := by
  rcases h with hLiteral | hName
  · rw [Operand.ofNode_literal hLiteral]
    exact (builds_literal hLiteral).map fun _ hValue => hValue
  · rw [Operand.ofNode, hName.rule_eq]
    exact .ok trivial (hName.firstTooLarge_cons (by simp))

/-- The parts of a membership condition are its column, its keyword and its values. -/
theorem Condition.membershipOf_eq {column keyword : Node Rule} {kind : Rule} {negated : Bool}
    {start stop valuesStart valuesStop : Cursor} (hKeyword : keyword.rule ≠ .literalList) :
    Condition.membershipOf negated (.node kind start stop
        [column, keyword, .node .literalList valuesStart valuesStop nodes]) =
      (literalsOf nodes).map (.membership (.ofNode column) negated) := by
  simp only [Condition.membershipOf, Node.parts, List.find?, hKeyword, decide_false]
  rfl

private theorem builds_membership {column keyword : Node Rule} {rule kind : Rule}
    {start stop valuesStart valuesStop : Cursor} (negated : Bool)
    (hColumn : IsLeaf length .name column) (hKeyword : IsLeaf length rule keyword)
    (hRule : rule ≠ .literalList) (hNumber : rule ≠ .number) (hKind : kind ≠ .number)
    (hValues : HasValues length nodes) :
    Builds [.node kind start stop
        [column, keyword, .node .literalList valuesStart valuesStop nodes]]
      Condition.IsRegular (Condition.membershipOf negated (.node kind start stop
        [column, keyword, .node .literalList valuesStart valuesStop nodes])) := by
  rw [Condition.membershipOf_eq (hKeyword.rule_eq ▸ hRule)]
  have hBuilds := (builds_values hValues).map (Q := Condition.IsRegular)
    (f := .membership (.ofNode column) negated) fun _ hRegular => hRegular
  apply hBuilds.congr
  simp [firstTooLarge_cons, hKind, hColumn.firstTooLarge_cons, hKeyword.firstTooLarge_cons, hNumber]

/-- The match of a condition builds a condition. -/
theorem builds_condition (h : IsCondition length node) :
    ∃ span result, Filter.ofNode node = result.map (.condition · span) ∧
      Builds [node] Condition.IsRegular result := by
  cases h with
  | @comparison column symbol operand start stop hColumn hSymbol hOperand =>
    obtain ⟨operator, hOperator⟩ := hSymbol.exists_operator
    refine ⟨_, Condition.comparisonOf (.node .comparison start stop [column, symbol, operand]),
      by rw [Filter.ofNode]; rfl, ?_⟩
    have hEq : Condition.comparisonOf (.node .comparison start stop [column, symbol, operand]) =
        (Operand.ofNode operand).map (.comparison (.ofNode column) operator) := by
      simp only [Condition.comparisonOf, Node.parts, hOperator]
    rw [hEq]
    have hBuilds := (builds_operand hOperand).map (Q := Condition.IsRegular)
      (f := .comparison (.ofNode column) operator) fun _ hRegular => hRegular
    apply hBuilds.congr
    simp [firstTooLarge_cons, hColumn.firstTooLarge_cons, hSymbol.firstTooLarge_cons]
  | @nullCheck column test start stop hColumn hTest =>
    refine ⟨_, Condition.nullCheckOf (.node .nullCheck start stop [column, test]),
      by rw [Filter.ofNode]; rfl, ?_⟩
    refine .ok trivial ?_
    rcases hTest with hTest | hTest
    · simp [firstTooLarge_cons, hColumn.firstTooLarge_cons, hTest.firstTooLarge_cons]
    · simp [firstTooLarge_cons, hColumn.firstTooLarge_cons, hTest.firstTooLarge_cons]
  | inList hColumn hKeyword hValues =>
    exact ⟨_, _, by rw [Filter.ofNode]; rfl,
      builds_membership false hColumn hKeyword (by simp) (by simp) (by simp) hValues⟩
  | notInList hColumn hKeyword hValues =>
    exact ⟨_, _, by rw [Filter.ofNode]; rfl,
      builds_membership true hColumn hKeyword (by simp) (by simp) (by simp) hValues⟩

end Conditions

namespace Connective

/-- Joins an operand to what is joined so far. -/
def attach (connective : Connective) : Option Filter → Filter → Filter
  | none, operand => operand
  | some joined, operand => connective.join joined operand (joined.span.cover operand.span)

/-- A regular operand keeps what is joined so far regular. -/
theorem attach_isRegular (connective : Connective) {joined : Option Filter} {operand : Filter}
    (hJoined : ∀ filter, joined = some filter → filter.IsRegular) (hOperand : operand.IsRegular) :
    (connective.attach joined operand).IsRegular := by
  cases joined with
  | none => exact hOperand
  | some filter => exact connective.join_isRegular (hJoined filter rfl) hOperand _

end Connective

namespace Filter

variable {connective : Connective} {node part : Node Rule} {joined : Option Filter}
  {parts : List (Node Rule)}

theorem isDelimiter_keyword (connective : Connective) :
    isDelimiter connective.keyword = true := by
  cases connective <;> rfl

/-- What only separates operands is passed over. -/
theorem chainOf_delimiter (h : isDelimiter part.rule = true) :
    chainOf connective node joined (part :: parts) = chainOf connective node joined parts := by
  rw [chainOf, if_pos h]

/-- An operand is joined to what is joined so far. -/
theorem chainOf_operand (h : isDelimiter part.rule = false) :
    chainOf connective node joined (part :: parts) =
      (ofNode part).bind fun operand =>
        chainOf connective node (some (connective.attach joined operand)) parts := by
  rw [chainOf, if_neg (by simp [h])]
  cases ofNode part with
  | error fault => rfl
  | ok operand => cases joined <;> rfl

/-- A filter in parentheses is an operand like any other. -/
theorem chainOf_group {length : Nat} {left right : Node Rule} {start stop : Cursor}
    {others : List (Node Rule)} (hLeft : IsLeaf length .leftParen left)
    (hRight : IsLeaf length .rightParen right) :
    chainOf connective node joined ([left, .node .disjunction start stop parts, right] ++ others) =
      (ofNode (.node .disjunction start stop parts)).bind fun operand =>
        chainOf connective node (some (connective.attach joined operand)) others := by
  have hLeftRule : isDelimiter left.rule = true := by
    rw [hLeft.rule_eq]
    rfl
  have hRightRule : isDelimiter right.rule = true := by
    rw [hRight.rule_eq]
    rfl
  rw [List.cons_append, chainOf_delimiter hLeftRule, List.cons_append, chainOf_operand rfl]
  congr 1
  funext operand
  exact chainOf_delimiter hRightRule

/-- The match of a negation negates the filter of its condition. -/
theorem ofNode_negation {length : Nat} {keyword : Node Rule} {start stop : Cursor}
    (hKeyword : IsLeaf length .keywordNot keyword) (h : IsCondition length node) :
    ofNode (.node .negation start stop [keyword, node]) =
      (ofNode node).map (.not · (.ofNode (.node .negation start stop [keyword, node]))) := by
  have hRule : node.rule ≠ .keywordNot := by cases h <;> exact nofun
  rw [ofNode, negationOf, if_pos hKeyword.rule_eq, negationOf, if_neg hRule]

end Filter

theorem IsCondition.isDelimiter_eq_false {length : Nat} {node : Node Rule}
    (h : IsCondition length node) : Filter.isDelimiter node.rule = false := by
  cases h <;> rfl

/-- What matches of a level build, whatever else the chain holds that they are a part of. -/
def Level.Builds : Level → List (Node Rule) → Prop
  | .operand _, nodes =>
    ∃ result, RowFilter.Builds nodes Filter.IsRegular result ∧
      ∀ connective node joined others,
        Filter.chainOf connective node joined (nodes ++ others) =
          result.bind fun operand =>
            Filter.chainOf connective node (some (connective.attach joined operand)) others
  | .rest _, nodes =>
    ∀ connective node (joined : Filter), joined.IsRegular →
      RowFilter.Builds nodes Filter.IsRegular (Filter.chainOf connective node (some joined) nodes)
  | .chain _, nodes =>
    ∀ connective node,
      RowFilter.Builds nodes Filter.IsRegular (Filter.chainOf connective node none nodes)

section Filters

variable {length : Nat} {node : Node Rule} {nodes : List (Node Rule)}

private theorem Level.builds_operand {connective : Connective} {result : Except TreeFault Filter}
    (hDelimiter : Filter.isDelimiter node.rule = false) (hResult : Filter.ofNode node = result)
    (hBuilds : RowFilter.Builds [node] Filter.IsRegular result) :
    (Level.operand connective).Builds [node] := by
  refine ⟨result, hBuilds, fun connective node joined others => ?_⟩
  rw [List.singleton_append, Filter.chainOf_operand hDelimiter, hResult]

private theorem Level.builds_condition (h : IsCondition length node) :
    (Level.operand .and).Builds [node] := by
  obtain ⟨span, result, hNode, hBuilds⟩ := RowFilter.builds_condition h
  exact builds_operand h.isDelimiter_eq_false hNode
    (hBuilds.map fun _ hCondition => .condition hCondition)

private theorem Level.builds_negation {keyword : Node Rule} {start stop : Cursor}
    (hKeyword : IsLeaf length .keywordNot keyword) (h : IsCondition length node) :
    (Level.operand .and).Builds [.node .negation start stop [keyword, node]] := by
  obtain ⟨span, result, hNode, hBuilds⟩ := RowFilter.builds_condition h
  have hNegation : Filter.ofNode (.node .negation start stop [keyword, node]) =
      result.map fun condition => .not (.condition condition span)
        (.ofNode (.node .negation start stop [keyword, node])) := by
    rw [Filter.ofNode_negation hKeyword h, hNode]
    cases result <;> rfl
  apply builds_operand rfl hNegation
  refine (hBuilds.map fun _ hCondition => Filter.IsRegular.negation hCondition).congr ?_
  simp [firstTooLarge_cons, hKeyword.firstTooLarge_cons]

private theorem Level.builds_group {left right : Node Rule} {parts : List (Node Rule)}
    {start stop : Cursor} (hLeft : IsLeaf length .leftParen left)
    (hParts : (Level.chain .or).Builds parts) (hRight : IsLeaf length .rightParen right) :
    (Level.operand .and).Builds [left, .node .disjunction start stop parts, right] := by
  refine ⟨Filter.ofNode (.node .disjunction start stop parts), ?_, ?_⟩
  · rw [Filter.ofNode]
    apply (hParts .or _).congr
    simp [firstTooLarge_cons, hLeft.firstTooLarge_cons, firstTooLarge_append,
      hRight.firstTooLarge_cons]
  · exact fun connective node joined others => Filter.chainOf_group hLeft hRight

/-- Matches of the shape of a filter build a regular filter, unless a number
is too large. -/
theorem HasShape.builds {level : Level} (h : HasShape length level nodes) :
    level.Builds nodes := by
  induction h with
  | condition hNode => exact Level.builds_condition hNode
  | negation hKeyword hNode => exact Level.builds_negation hKeyword hNode
  | group hLeft _ hRight ih => exact Level.builds_group hLeft ih hRight
  | @conjunction parts start stop _ ih =>
    apply Level.builds_operand rfl rfl
    rw [Filter.ofNode]
    apply (ih .and _).congr
    simp [firstTooLarge_cons]
  | last =>
    intro connective node joined hJoined
    rw [Filter.chainOf]
    exact .ok hJoined rfl
  | @more connective keyword operand others hKeyword _ _ ihOperand ihOthers =>
    intro chain node joined hJoined
    have hDelimiter : Filter.isDelimiter keyword.rule = true := by
      rw [hKeyword.rule_eq, Filter.isDelimiter_keyword]
    obtain ⟨result, hBuilds, hChain⟩ := ihOperand
    rw [Filter.chainOf_delimiter hDelimiter, hChain]
    have hAll := hBuilds.bind fun filter hFilter =>
      ihOthers chain node (chain.attach (some joined) filter)
        (chain.attach_isRegular (fun _ h => Option.some.inj h ▸ hJoined) hFilter)
    exact hAll.congr (hKeyword.firstTooLarge_cons (by cases connective <;> decide))
  | chain _ _ ihOperand ihOthers =>
    intro chain node
    obtain ⟨result, hBuilds, hChain⟩ := ihOperand
    rw [hChain]
    exact hBuilds.bind fun filter hFilter => ihOthers chain node filter hFilter

end Filters

end RowFilter
