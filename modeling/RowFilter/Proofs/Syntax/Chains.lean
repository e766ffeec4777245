import RowFilter.Proofs.Syntax.Levels

/-! Printed filters are read back, level by level. A filter is read as an
operand of a connective and as the beginning of a chain of its operands, and
each of the two readings of a node comes from those of the nodes below it. -/

namespace RowFilter

open Grammar Text

variable {length : Nat} {quote : String → Quote} {behind middle rest : List Char}
  {connective : Connective} {filter left right : Filter}

section Sources

/-- A filter in writing where it begins a chain of operands. -/
def chainSource (quote : String → Quote) : Connective → Filter → List Char
  | .and, filter => enclosed (filter.isJoinedBy .or) (filter.source quote)
  | .or, filter => filter.source quote

/-- A filter in writing as an operand. Operands of the same connective need parentheses. -/
def operandSource (quote : String → Quote) : Connective → Filter → List Char
  | .and, filter =>
    enclosed (filter.isJoinedBy .or || filter.isJoinedBy .and) (filter.source quote)
  | .or, filter => enclosed (filter.isJoinedBy .or) (filter.source quote)

theorem chainSource_join (connective : Connective) (left right : Filter) (span : Span) :
    chainSource quote connective (connective.join left right span) =
      chainSource quote connective left ++ ' ' :: (connective.word ++ ' ' ::
        operandSource quote connective right) := by
  cases connective <;> rfl

/-- What is no chain is written as an operand. -/
theorem chainSource_eq_operandSource (h : filter.isJoinedBy connective = false) :
    chainSource quote connective filter = operandSource quote connective filter := by
  cases connective with
  | and => rw [chainSource, operandSource, h, Bool.or_false]
  | or => rw [chainSource, operandSource, h, enclosed, if_neg Bool.false_ne_true]

private theorem stopsAt_gap_enclosed {needed : Bool} {text : List Char}
    (h : StopsAt isGap (text ++ behind)) : StopsAt isGap (enclosed needed text ++ behind) := by
  cases needed with
  | false => exact h
  | true => rfl

/-- A printed filter begins with no gap. -/
theorem stopsAt_gap_source (hSpellable : filter.IsSpellable quote) (behind : List Char) :
    StopsAt isGap (filter.source quote ++ behind) := by
  induction filter generalizing behind with
  | condition c span =>
    exact (beginsName_condition 0 (Filter.isSpellable_condition.1 hSpellable) behind).stopsAt_gap
  | and left right span ihLeft _ =>
    rw [Filter.source, List.append_assoc]
    exact stopsAt_gap_enclosed (ihLeft (Filter.isSpellable_and.1 hSpellable).1 _)
  | or left right span ihLeft _ =>
    rw [Filter.source, List.append_assoc]
    exact ihLeft (Filter.isSpellable_or.1 hSpellable).1 _
  | not operand span => rfl

theorem stopsAt_gap_operandSource (connective : Connective) (hSpellable : filter.IsSpellable quote)
    (behind : List Char) : StopsAt isGap (operandSource quote connective filter ++ behind) := by
  cases connective <;> exact stopsAt_gap_enclosed (stopsAt_gap_source hSpellable behind)

end Sources

/-- A printed filter is read as an operand of a connective. -/
def ReadsOperand (length : Nat) (quote : String → Quote) (connective : Connective)
    (filter : Filter) : Prop :=
  ∀ behind rest, StopsAt (!isDelimiter ·) behind → IsBehindGap behind rest →
    EndsOperand length connective rest →
    Accepts filterGrammar length (.rule connective.operandRule) .initial
      (operandSource quote connective filter ++ behind) rest (AddsOperand filter)

/-- A printed filter is read as the beginning of a chain, whatever further
operands follow it. -/
def ReadsChain (length : Nat) (quote : String → Quote) (connective : Connective)
    (filter : Filter) : Prop :=
  ∀ behind middle rest P, StopsAt (!isDelimiter ·) behind → IsBehindGap behind middle →
    EndsOperand length connective middle →
    Continues filterGrammar length (furtherOperand connective) .initial middle rest P →
    Accepts filterGrammar length connective.chainRule.body .initial
      (chainSource quote connective filter ++ behind) rest
      (Joined (BeginsChain connective filter) P)

section Levels

/-- An operand that is read may stand in front of a delimiter. -/
theorem ReadsOperand.operandAt (h : ReadsOperand length quote connective filter)
    (hBehind : StopsAt (!isDelimiter ·) behind) (hGap : IsBehindGap behind rest) :
    OperandAt length connective (operandSource quote connective filter ++ behind) rest filter :=
  h behind rest hBehind hGap

/-- A chain that is read may stand in front of a delimiter. -/
theorem ReadsChain.chainAt (h : ReadsChain length quote connective filter)
    (hBehind : StopsAt (!isDelimiter ·) behind) (hGap : IsBehindGap behind middle) :
    ChainAt length connective (chainSource quote connective filter ++ behind) middle filter :=
  fun rest P => h behind middle rest P hBehind hGap

/-- An operand begins a chain. -/
theorem ReadsOperand.readsChain (h : ReadsOperand length quote connective filter)
    (hAlone : filter.isJoinedBy connective = false) :
    ReadsChain length quote connective filter := by
  intro behind middle rest P hBehind hGap
  rw [chainSource_eq_operandSource hAlone]
  exact (h.operandAt hBehind hGap).chainAt hGap.stopsAt rest P

/-- A chain goes on with one more operand. -/
theorem ReadsChain.join (hLeft : ReadsChain length quote connective left)
    (hRight : ReadsOperand length quote connective right) (hSpellable : right.IsSpellable quote)
    (span : Span) : ReadsChain length quote connective (connective.join left right span) := by
  intro behind middle rest P hBehind hGap
  have hText : chainSource quote connective (connective.join left right span) ++ behind =
      chainSource quote connective left ++ ' ' :: (connective.word ++ ' ' ::
        (operandSource quote connective right ++ behind)) := by
    rw [chainSource_join]
    simp
  have hWordStops : StopsAt isGap (connective.word ++ ' ' ::
      (operandSource quote connective right ++ behind)) := by
    cases connective <;> rfl
  have hWord : Accepts filterGrammar length (.rule connective.keyword) .initial
      (connective.word ++ ' ' :: (operandSource quote connective right ++ behind))
      (operandSource quote connective right ++ behind)
      (IsWord connective.keyword connective.word) :=
    accepts_connective (stopsAt_blank _)
      (isBehindGap_blank (stopsAt_gap_operandSource connective hSpellable behind)) connective
  rw [hText]
  exact (hLeft.chainAt (stopsAt_blank _) (isBehindGap_blank hWordStops)).join
    (hWord.mono fun _ => IsWord.isShown) (hRight.operandAt hBehind hGap) span rest P

/-- A chain of operands of `AND` is an operand of `OR`. -/
theorem ReadsChain.readsOperand (h : ReadsChain length quote .and filter) :
    ReadsOperand length quote .or filter :=
  fun _ _ hBehind hGap => (h.chainAt hBehind hGap).operandAt

/-- A chain of operands of `OR` between parentheses is an operand of `AND`. -/
theorem ReadsChain.readsGroup (h : ReadsChain length quote .or filter)
    (hSpellable : filter.IsSpellable quote)
    (hEnclosed : (filter.isJoinedBy .or || filter.isJoinedBy .and) = true) :
    ReadsOperand length quote .and filter := by
  intro behind rest hBehind hGap
  have hText : operandSource quote .and filter ++ behind =
      '(' :: (filter.source quote ++ ')' :: behind) := by
    simp [operandSource, enclosed, hEnclosed]
  have hChain : ChainAt length .or (filter.source quote ++ ')' :: behind) (')' :: behind) filter :=
    h.chainAt rfl (isBehindGap_self rfl)
  rw [hText]
  exact hChain.enclosed (isBehindGap_self (stopsAt_gap_source hSpellable _)) hGap

end Levels

end RowFilter
