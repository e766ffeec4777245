import RowFilter.Proofs.Syntax.Balance
import RowFilter.Proofs.Syntax.Context

/-! Filters in larger filters. Whatever two accepted texts look like, what they
spell is spelled by them between parentheses as well, and both are joined by
the connective that stands between them. -/

namespace RowFilter

open Grammar Text Nesting

variable {length : Nat} {connective : Connective} {source first second : String}
  {filter left right : Filter} {text behind rest : List Char}

/-- A factor is an operand of either connective. -/
theorem OperandAt.of_and (h : OperandAt length .and text rest filter) (hStops : StopsAt isGap rest)
    (connective : Connective) : OperandAt length connective text rest filter := by
  cases connective with
  | and => exact h
  | or => exact (h.chainAt hStops).operandAt

/-- A chain of either connective begins a chain of `OR`. -/
theorem ChainAt.or (h : ChainAt length connective text rest filter) (hStops : StopsAt isGap rest) :
    ChainAt length .or text rest filter := by
  cases connective with
  | and => exact h.operandAt.chainAt hStops
  | or => exact h

namespace Filter

/-- An accepted text between parentheses is an operand. -/
theorem operandAt_enclosed (h : parse source = .ok filter) (hGap : IsBehindGap behind rest)
    (connective : Connective) :
    OperandAt length connective ('(' :: (source.toList ++ ')' :: behind)) rest filter := by
  have hDelimiter : StopsAt (!Text.isDelimiter ·) (')' :: behind) := rfl
  have hChain := chainAt_of_parse h length hDelimiter
  exact (hChain.enclosed rfl hGap).of_and hGap.stopsAt connective

/-- One more operand: a connective and a text between parentheses. -/
def furtherSource (connective : Connective) (source : String) : List Char :=
  connective.word ++ ' ' :: '(' :: (source.toList ++ [')'])

private theorem isBehindGap_furtherSource (connective : Connective) (source : String) :
    IsBehindGap (' ' :: furtherSource connective source) (furtherSource connective source) := by
  cases connective <;> rfl

/-- A chain goes on with an accepted text between parentheses. -/
theorem chainAt_join_enclosed (h : parse source = .ok right)
    (hLeft : ChainAt length connective text (furtherSource connective source) left) :
    ChainAt length connective text [] (connective.join left right .none) := by
  have hWord : Accepts filterGrammar length (.rule connective.keyword) .initial
      (furtherSource connective source) ('(' :: (source.toList ++ [')']))
      (IsWord connective.keyword connective.word) :=
    accepts_connective (stopsAt_blank _) (isBehindGap_blank (stopsAt_cons.2 rfl)) connective
  have hRight : OperandAt length connective ('(' :: (source.toList ++ [')'])) [] right :=
    operandAt_enclosed h rfl connective
  exact hLeft.join (hWord.mono fun _ => IsWord.isShown) hRight .none

section Depth

/-- Parentheses around an accepted text add one to its depth. -/
theorem nests_enclosed (h : parse source = .ok filter) :
    Nests ('(' :: (source.toList ++ [')'])) (depthOf source.toList + 1) :=
  @Nests.enclosed _ _ true (isBalanced_of_parse h).nests

/-- One more operand between parentheses nests one level deeper than its text. -/
theorem nests_furtherSource (connective : Connective) (h : parse source = .ok filter) :
    Nests (' ' :: furtherSource connective source) (depthOf source.toList + 1) := by
  have hBlank : ' ' ∉ marks := by decide
  have hWord : Nests connective.word 0 := by cases connective <;> exact .of_word rfl
  exact .cons hBlank (hWord.flat_append (.cons hBlank (nests_enclosed h)))

end Depth

section Texts

variable {whole : String} {depth : Nat}

/-- An accepted text between parentheses is accepted, if it is not too deep for them. -/
theorem parse_enclosed (h : parse source = .ok filter) (hDepth : depthOf source.toList < limit) :
    ∃ read, parse ("(" ++ source ++ ")") = .ok read ∧ read.eraseSpans = filter.eraseSpans := by
  have hText : ("(" ++ source ++ ")").toList = '(' :: (source.toList ++ [')']) := by simp
  apply parse_of_chainAt
  · rw [hText]
    exact (nests_enclosed h).isWithinLimit hDepth
  · rw [hText]
    exact (operandAt_enclosed h rfl .or).chainAt trivial

private theorem parse_join_enclosed (h : parse source = .ok right)
    (hDepth : depthOf source.toList < limit)
    (hText : whole.toList = text ++ ' ' :: furtherSource connective source)
    (hNests : Nests text depth) (hTextDepth : depth ≤ limit)
    (hLeft : ChainAt whole.toList.length connective (Mode.initial.behindGap isGap whole.toList)
      (furtherSource connective source) left) :
    ∃ read, parse whole = .ok read ∧
      read.eraseSpans = (connective.join left right .none).eraseSpans := by
  have hAll := hNests.append (nests_furtherSource connective h)
  apply parse_of_chainAt
  · rw [hText]
    exact hAll.isWithinLimit (Nat.max_le.2 ⟨hTextDepth, hDepth⟩)
  · exact (chainAt_join_enclosed h hLeft).or trivial

/-- Two accepted texts between parentheses are joined by the connective between them. -/
theorem parse_enclosed_join_enclosed (connective : Connective) (hFirst : parse first = .ok left)
    (hSecond : parse second = .ok right) (hFirstDepth : depthOf first.toList < limit)
    (hSecondDepth : depthOf second.toList < limit)
    (hText : whole.toList =
      '(' :: (first.toList ++ ')' :: ' ' :: furtherSource connective second)) :
    ∃ read, parse whole = .ok read ∧
      read.eraseSpans = (connective.join left right .none).eraseSpans := by
  have hGap := isBehindGap_furtherSource connective second
  have hSplit : whole.toList =
      ('(' :: (first.toList ++ [')'])) ++ ' ' :: furtherSource connective second := by
    simp [hText]
  refine parse_join_enclosed hSecond hSecondDepth hSplit (nests_enclosed hFirst) hFirstDepth ?_
  have hLeft : OperandAt whole.toList.length connective whole.toList
      (furtherSource connective second) left := by
    rw [hText]
    exact operandAt_enclosed hFirst hGap connective
  have hStart : Mode.initial.behindGap isGap whole.toList = whole.toList := by
    rw [hText]
    rfl
  rw [hStart]
  exact hLeft.chainAt hGap.stopsAt

/-- A further operand of `OR` needs no parentheses around what stands before it. -/
theorem parse_or_enclosed (hFirst : parse first = .ok left) (hSecond : parse second = .ok right)
    (hFirstDepth : depthOf first.toList ≤ limit) (hSecondDepth : depthOf second.toList < limit)
    (hText : whole.toList = first.toList ++ ' ' :: furtherSource .or second) :
    ∃ read, parse whole = .ok read ∧
      read.eraseSpans = (Filter.or left right .none).eraseSpans := by
  have hNests := (isBalanced_of_parse hFirst).nests
  have hLeft := chainAt_of_parse hFirst whole.toList.length
    (stopsAt_blank (furtherSource .or second))
  rw [← hText, isBehindGap_furtherSource .or second] at hLeft
  exact parse_join_enclosed hSecond hSecondDepth hText hNests hFirstDepth hLeft

/-- Reading is compositional. Two texts that spell filters, in any notation,
spell the same filters between parentheses, and both filters joined by the
connective that stands between the texts. The parentheses of each text may nest
up to one less than the limit. -/
theorem parse_compositional (hFirst : parse first = .ok left) (hSecond : parse second = .ok right)
    (hFirstDepth : depthOf first.toList ≤ 255) (hSecondDepth : depthOf second.toList ≤ 255) :
    (∃ read, parse ("(" ++ first ++ ")") = .ok read ∧ read.eraseSpans = left.eraseSpans) ∧
    (∃ read, parse ("(" ++ first ++ ") AND (" ++ second ++ ")") = .ok read ∧
      read.eraseSpans = .and left.eraseSpans right.eraseSpans .none) ∧
    (∃ read, parse ("(" ++ first ++ ") OR (" ++ second ++ ")") = .ok read ∧
      read.eraseSpans = .or left.eraseSpans right.eraseSpans .none) ∧
    ∃ read, parse (first ++ " OR (" ++ second ++ ")") = .ok read ∧
      read.eraseSpans = .or left.eraseSpans right.eraseSpans .none := by
  have hFirstLt : depthOf first.toList < limit := Nat.lt_succ_of_le hFirstDepth
  have hSecondLt : depthOf second.toList < limit := Nat.lt_succ_of_le hSecondDepth
  refine ⟨parse_enclosed hFirst hFirstLt, ?_, ?_, ?_⟩
  · apply parse_enclosed_join_enclosed .and hFirst hSecond hFirstLt hSecondLt
    simp [furtherSource, Connective.word]
  · apply parse_enclosed_join_enclosed .or hFirst hSecond hFirstLt hSecondLt
    simp [furtherSource, Connective.word]
  · apply parse_or_enclosed hFirst hSecond (Nat.le_of_lt hFirstLt) hSecondLt
    simp [furtherSource, Connective.word]

/-- Connectives of both kinds, a parenthesis in a quoted text and a gap at the end. -/
theorem parse_compositional_notations :
    let first := "a=1 AND b in('x)')"
    let second := " NOT c>5 OR `d`IS NULL\t"
    ∃ left right, parse first = .ok left ∧ parse second = .ok right ∧
      depthOf first.toList = 1 ∧ depthOf second.toList = 0 ∧
      (∃ read, parse ("(" ++ first ++ ")") = .ok read ∧ read.eraseSpans = left.eraseSpans) ∧
      (∃ read, parse ("(" ++ first ++ ") AND (" ++ second ++ ")") = .ok read ∧
        read.eraseSpans = .and left.eraseSpans right.eraseSpans .none) ∧
      (∃ read, parse ("(" ++ first ++ ") OR (" ++ second ++ ")") = .ok read ∧
        read.eraseSpans = .or left.eraseSpans right.eraseSpans .none) ∧
      ∃ read, parse (first ++ " OR (" ++ second ++ ")") = .ok read ∧
        read.eraseSpans = .or left.eraseSpans right.eraseSpans .none := by
  intro first second
  obtain ⟨left, hFirst, -⟩ : ∃ read, parse first = .ok read ∧ read.eraseSpans =
      .and (.condition (.comparison ⟨"a", .none⟩ .equal (.literal (.integer 1))) .none)
        (.condition (.membership ⟨"b", .none⟩ false [.text "x)"]) .none) .none :=
    exists_parse_of_eraseSpans (by decide +kernel)
  obtain ⟨right, hSecond, -⟩ : ∃ read, parse second = .ok read ∧ read.eraseSpans =
      .or (.not (.condition (.comparison ⟨"c", .none⟩ .greater (.literal (.integer 5))) .none)
        .none) (.condition (.nullCheck ⟨"d", .none⟩ false) .none) .none :=
    exists_parse_of_eraseSpans (by decide +kernel)
  have hFirstDepth : depthOf first.toList = 1 := by decide +kernel
  have hSecondDepth : depthOf second.toList = 0 := by decide +kernel
  refine ⟨left, right, hFirst, hSecond, hFirstDepth, hSecondDepth, ?_⟩
  exact parse_compositional hFirst hSecond (by omega) (by omega)

end Texts

end Filter

end RowFilter
