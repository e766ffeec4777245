import RowFilter.Proofs.Grammar.Copied
import RowFilter.Syntax.Tree

/-! Filters from copied matches. What is built from a match is built from each
copy of it, spans included, since no part of a filter is taken from what stands
behind a match. The span of a chain is that of its operands, so it does not
matter where the match of the chain ends. -/

namespace RowFilter

open Grammar Node

variable {node other chain otherChain : Node Rule} {nodes others : List (Node Rule)}

section Results

variable {ε α β : Type}

/-- Results that are the same but for why there is none. -/
theorem toOption_eq_iff {first second : Except ε α} :
    first.toOption = second.toOption ↔
      (∃ value, first = .ok value ∧ second = .ok value) ∨
        ∃ fault other, first = .error fault ∧ second = .error other := by
  cases first <;> cases second <;> simp [Except.toOption, eq_comm]

private theorem toOption_map (f : α → β) (result : Except ε α) :
    (result.map f).toOption = result.toOption.map f := by
  cases result <;> rfl

end Results

section Values

theorem Grammar.Node.Copied.span_eq (h : Copied node other) :
    Span.ofNode node = Span.ofNode other := by
  simp only [Span.ofNode, h.start.offset_eq, h.start.position_eq, h.stop.offset_eq]

theorem Grammar.Node.Copied.column_eq (h : Copied node other) :
    Column.ofNode node = Column.ofNode other := by
  rw [Column.ofNode, Column.ofNode, h.text_eq, h.span_eq]

theorem Grammar.Node.Copied.quotedText_eq (h : Copied node other) :
    quotedText node = quotedText other := by
  have hParts := h.parts
  rw [quotedText, quotedText]
  cases hNode : node.parts with
  | nil =>
    rw [hNode] at hParts
    rw [hParts.eq_nil]
  | cons part parts =>
    rw [hNode] at hParts
    obtain ⟨otherPart, _, hOther, hPart, -⟩ := hParts.exists_cons
    rw [hOther, List.head?_cons, List.head?_cons, Option.map_some, Option.map_some, hPart.text_eq]

/-- Copied matches build the same literal. -/
theorem Literal.ofNode_copied (h : Copied node other) :
    (ofNode node).toOption = (ofNode other).toOption := by
  rw [ofNode, ofNode, h.rule_eq, h.text_eq, h.quotedText_eq]
  split
  · split <;> rfl
  · rfl
  · rfl

/-- Copied matches build the same operand. -/
theorem Operand.ofNode_copied (h : Copied node other) :
    (ofNode node).toOption = (ofNode other).toOption := by
  rw [ofNode, ofNode, h.rule_eq, h.column_eq]
  split
  · rfl
  · rw [toOption_map, toOption_map, Literal.ofNode_copied h]

theorem literalsOf_copied (h : AllCopied nodes others) :
    (literalsOf nodes).toOption = (literalsOf others).toOption := by
  induction nodes generalizing others with
  | nil => rw [h.eq_nil]
  | cons node nodes ih =>
    obtain ⟨other, others, rfl, hNode, hNodes⟩ := h.exists_cons
    have hRest := ih hNodes
    rw [literalsOf, literalsOf, hNode.rule_eq]
    split
    · rcases toOption_eq_iff.1 (Literal.ofNode_copied hNode) with
        ⟨value, hValue, hOther⟩ | ⟨_, _, hFault, hOther⟩
      · rw [hValue, hOther]
        exact (toOption_map ..).trans ((congrArg _ hRest).trans (toOption_map ..).symm)
      · rw [hFault, hOther]
        rfl
    · exact hRest

end Values

section Conditions

namespace Condition

theorem comparisonOf_copied (h : Copied node other) :
    (comparisonOf node).toOption = (comparisonOf other).toOption := by
  have hParts := h.parts
  rw [comparisonOf, comparisonOf]
  generalize node.parts = parts at hParts
  generalize other.parts = otherParts at hParts
  cases parts with
  | nil =>
    rw [hParts.eq_nil]
    rfl
  | cons left parts =>
    obtain ⟨otherLeft, _, rfl, hLeft, hParts⟩ := hParts.exists_cons
    cases parts with
    | nil =>
      rw [hParts.eq_nil]
      rfl
    | cons symbol parts =>
      obtain ⟨otherSymbol, _, rfl, hSymbol, hParts⟩ := hParts.exists_cons
      dsimp only
      rw [hSymbol.text_eq]
      cases Comparison.ofSymbol? otherSymbol.text with
      | none => rfl
      | some operator =>
        cases parts with
        | nil =>
          rw [hParts.eq_nil]
          rfl
        | cons right parts =>
          obtain ⟨otherRight, _, rfl, hRight, -⟩ := hParts.exists_cons
          dsimp only
          rw [toOption_map, toOption_map, Operand.ofNode_copied hRight, hLeft.column_eq]

theorem nullCheckOf_copied (h : Copied node other) :
    (nullCheckOf node).toOption = (nullCheckOf other).toOption := by
  have hParts := h.parts
  rw [nullCheckOf, nullCheckOf]
  generalize node.parts = parts at hParts
  generalize other.parts = otherParts at hParts
  cases parts with
  | nil =>
    rw [hParts.eq_nil]
    rfl
  | cons column parts =>
    obtain ⟨otherColumn, _, rfl, hColumn, hParts⟩ := hParts.exists_cons
    cases parts with
    | nil =>
      rw [hParts.eq_nil]
      rfl
    | cons test parts =>
      obtain ⟨otherTest, _, rfl, hTest, -⟩ := hParts.exists_cons
      dsimp only
      rw [hTest.rule_eq, hColumn.column_eq]

private theorem find?_copied (h : AllCopied nodes others) (rule : Rule) :
    (nodes.find? (·.rule = rule) = none ∧ others.find? (·.rule = rule) = none) ∨
      ∃ found copy, nodes.find? (·.rule = rule) = some found ∧
        others.find? (·.rule = rule) = some copy ∧ Copied found copy := by
  induction nodes generalizing others with
  | nil =>
    rw [h.eq_nil]
    exact .inl ⟨rfl, rfl⟩
  | cons node nodes ih =>
    obtain ⟨other, others, rfl, hNode, hNodes⟩ := h.exists_cons
    rw [List.find?_cons, List.find?_cons, hNode.rule_eq]
    split
    · exact .inr ⟨node, other, rfl, rfl, hNode⟩
    · exact ih hNodes

theorem membershipOf_copied (negated : Bool) (h : Copied node other) :
    (membershipOf negated node).toOption = (membershipOf negated other).toOption := by
  have hParts := h.parts
  rw [membershipOf, membershipOf]
  generalize node.parts = parts at hParts
  generalize other.parts = otherParts at hParts
  cases parts with
  | nil =>
    rw [hParts.eq_nil]
    rfl
  | cons column parts =>
    obtain ⟨otherColumn, _, rfl, hColumn, hParts⟩ := hParts.exists_cons
    dsimp only
    rcases find?_copied hParts .literalList with ⟨hNone, hOther⟩ | ⟨_, _, hSome, hOther, hValues⟩
    · rw [hNone, hOther]
      rfl
    · rw [hSome, hOther]
      dsimp only
      rw [toOption_map, toOption_map, literalsOf_copied hValues.parts, hColumn.column_eq]

end Condition

end Conditions

namespace Filter

private theorem ofCondition_copied {first second : Except TreeFault Condition}
    (h : Copied node other) (hSame : first.toOption = second.toOption) :
    (ofCondition node first).toOption = (ofCondition other second).toOption := by
  rw [ofCondition, ofCondition, toOption_map, toOption_map, hSame, h.span_eq]

/-- An operand is joined to a chain if it is to the copy. -/
theorem chainOf_cons {connective : Connective} {joined : Option Filter}
    (hRule : node.rule = other.rule) (hNode : (ofNode node).toOption = (ofNode other).toOption)
    (hNodes : ∀ joined, (chainOf connective chain joined nodes).toOption =
      (chainOf connective otherChain joined others).toOption) :
    (chainOf connective chain joined (node :: nodes)).toOption =
      (chainOf connective otherChain joined (other :: others)).toOption := by
  rw [chainOf, chainOf, hRule]
  split
  · exact hNodes joined
  · rcases toOption_eq_iff.1 hNode with ⟨operand, hValue, hOther⟩ | ⟨_, _, hFault, hOther⟩
    · rw [hValue, hOther]
      cases joined <;> exact hNodes _
    · rw [hFault, hOther]
      rfl

mutual

/-- The induction is on the match and on the matches within it. -/
theorem ofNode_copied (node other : Node Rule) (h : Copied node other) :
    (ofNode node).toOption = (ofNode other).toOption := by
  match node, other with
  | .node rule start stop parts, .node otherRule first last others =>
    obtain rfl : rule = otherRule := h.rule_eq
    cases rule
    case disjunction | conjunction =>
      rw [ofNode, ofNode]
      exact chainOf_copied parts others h.parts
    case negation =>
      rw [ofNode, ofNode]
      exact negationOf_copied h parts others h.parts
    case comparison =>
      rw [ofNode, ofNode]
      exact ofCondition_copied h (Condition.comparisonOf_copied h)
    case nullCheck =>
      rw [ofNode, ofNode]
      exact ofCondition_copied h (Condition.nullCheckOf_copied h)
    case inList | notInList =>
      rw [ofNode, ofNode]
      exact ofCondition_copied h (Condition.membershipOf_copied _ h)
    all_goals rfl

/-- Copied chains build the same filter. -/
theorem chainOf_copied {connective : Connective} {chain otherChain : Node Rule}
    {joined : Option Filter} (nodes others : List (Node Rule)) (h : AllCopied nodes others) :
    (chainOf connective chain joined nodes).toOption =
      (chainOf connective otherChain joined others).toOption := by
  match nodes with
  | [] =>
    rw [h.eq_nil]
    cases joined <;> rfl
  | part :: parts =>
    obtain ⟨other, others, rfl, hPart, hParts⟩ := h.exists_cons
    exact chainOf_cons hPart.rule_eq (ofNode_copied part other hPart) fun _ =>
      chainOf_copied parts others hParts

theorem negationOf_copied {negation otherNegation : Node Rule} (h : Copied negation otherNegation)
    (nodes others : List (Node Rule)) (hNodes : AllCopied nodes others) :
    (negationOf negation nodes).toOption = (negationOf otherNegation others).toOption := by
  match nodes with
  | [] =>
    rw [hNodes.eq_nil]
    rfl
  | part :: parts =>
    obtain ⟨other, others, rfl, hPart, hParts⟩ := hNodes.exists_cons
    rw [negationOf, negationOf, hPart.rule_eq]
    split
    · exact negationOf_copied h parts others hParts
    · rw [toOption_map, toOption_map, ofNode_copied part other hPart, h.span_eq]

end

end Filter

end RowFilter
