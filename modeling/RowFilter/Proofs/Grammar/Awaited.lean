import RowFilter.Proofs.Grammar.Resumption
import RowFilter.Proofs.Grammar.Stack

/-! What a call waits for. Behind what was read before a call, any text that is
read for the call completes the whole, if the right text stands behind it. So
each inner call waits for something too: what was read in front of it is read
again, and samples stand for what is still to come. -/

namespace RowFilter.Grammar

variable {R : Type} {grammar : Grammar R} {quiet known : R → Bool}
  {needOf : R → List Char → Prop} {textOf : R → List Char} {goal : List Char → Prop}
  {length : Nat} {whole : List Char}

/-- A text has a property once something is read for a call in place of what stands there. -/
def Awaits (grammar : Grammar R) (known : R → Bool) (needOf : R → List Char → Prop)
    (goal : List Char → Prop) (whole : List Char) (call : Call R) : Prop :=
  call.mode = .initial ∧ IsBehindGapFor grammar call.task call.text ∧
    ∃ before rest need, whole = before ++ call.text ∧
    Resumes grammar known needOf call.task need ∧ BeginsLike grammar.isBlank [] rest ∧
    need (Mode.initial.behindGap grammar.isBlank rest) ∧
    ∀ behind, BeginsLike grammar.isBlank call.text behind →
      Goes grammar (before ++ behind).length call.task
        (Mode.initial.behindGap grammar.isBlank behind)
        (Mode.initial.behindGap grammar.isBlank rest) →
      goal (before ++ behind)

private theorem awaits_of_goes {task inner : Task R}
    {before text taken later rest others : List Char} {need : List Char → Prop}
    (hGoal : ∀ behind, BeginsLike grammar.isBlank text behind →
      Goes grammar (before ++ behind).length task (Mode.initial.behindGap grammar.isBlank behind)
        (Mode.initial.behindGap grammar.isBlank rest) → goal (before ++ behind))
    (hText : text = taken ++ later) (hLater : IsBehindGapFor grammar inner later)
    (hInner : Resumes grammar known needOf inner need)
    (hOthers : BeginsLike grammar.isBlank [] others)
    (hNeed : need (Mode.initial.behindGap grammar.isBlank others))
    (hGoes : ∀ length behind, BeginsLike grammar.isBlank later behind →
      Goes grammar length inner (Mode.initial.behindGap grammar.isBlank behind)
        (Mode.initial.behindGap grammar.isBlank others) →
      Goes grammar length task (Mode.initial.behindGap grammar.isBlank (taken ++ behind))
        (Mode.initial.behindGap grammar.isBlank rest)) :
    Awaits grammar known needOf goal (before ++ text) ⟨inner, .initial, later⟩ := by
  refine ⟨rfl, hLater, before ++ taken, others, need, by rw [hText, List.append_assoc], hInner,
    hOthers, hNeed, fun behind hBehind hReads => ?_⟩
  have hTaken := hBehind.append taken
  rw [← hText] at hTaken
  rw [List.append_assoc] at hReads ⊢
  exact hGoal _ hTaken (hGoes _ behind hBehind hReads)

section Calls

variable (hRules : ∀ rule, known rule = true → IsResumed grammar quiet known needOf rule)
  (hBlank : grammar.isBlank ' ' = true)
  (hTexts : ∀ rule, known rule = true → IsWholeText grammar rule (textOf rule))

include hRules hBlank hTexts

/-- Each call that is made for an awaited one is awaited, or no failure within it is noted. -/
theorem Awaits.of_inner {outer inner : Call R}
    (h : Awaits grammar known needOf goal whole outer)
    (hInner : Inner grammar length outer inner) :
    Awaits grammar known needOf goal whole inner ∨ inner.IsQuiet quiet := by
  obtain ⟨task, mode, text⟩ := outer
  obtain ⟨hMode, hPlace, before, rest, need, rfl, hTask, hRest, hNeed, hGoal⟩ := h
  obtain rfl : mode = .initial := hMode
  dsimp only at hPlace hTask hGoal
  cases hInner with
  | rule rule =>
    cases hTask with
    | rule hRule hImplies =>
      cases hRules rule hRule with
      | leaf hQuiet =>
        refine .inr (hQuiet.imp_left fun hKind => ?_)
        change ((grammar.kind rule).inside .initial).records = false
        rw [hKind]
        rfl
      | joined hInside hBody =>
        rw [hInside]
        exact .inl (awaits_of_goes hGoal (List.nil_append text).symm hPlace hBody hRest
          (hImplies _ hNeed) fun _ _ _ hGoes => Goes.rule hGoes hInside)
  | seqFirst first second =>
    cases hTask with
    | seq hFirst hSecond hGuards =>
      have hSample (length : Nat) := hSecond.goes_sample length hRules hBlank hTexts hRest hNeed
      exact .inl (awaits_of_goes hGoal (List.nil_append text).symm hPlace hFirst
        (second.beginsLike_sample hBlank hRest) (hGuards (hSample 0) hNeed)
        fun length _ _ hGoes => Goes.seq hGoes (hSample length))
  | @seqSecond first second _ _ stop pieces hReads =>
    cases hTask with
    | seq hFirst hSecond hGuards =>
      have hText := hReads.text_eq
      rw [← Mode.gap_append_behindGap .initial grammar.isBlank stop, ← List.append_assoc] at hText
      refine .inl (awaits_of_goes hGoal hText (Mode.behindGap_idem ..) hSecond hRest hNeed ?_)
      intro length behind hBehind hGoes
      have hStop := hBehind.append (Mode.initial.gap grammar.isBlank stop)
      rw [Mode.gap_append_behindGap] at hStop
      rw [← Mode.behindGap_gap_append _ _ stop] at hGoes
      have hStart := hReads.goes length hRules rfl rfl hPlace hFirst hStop (hGuards hGoes hNeed)
      rw [← List.append_assoc] at hStart
      exact hStart.seq hGoes
  | choiceFirst =>
    cases hTask with
    | choice hFirst =>
      exact .inl (awaits_of_goes hGoal (List.nil_append text).symm hPlace hFirst hRest hNeed
        fun _ _ _ hGoes => Accepts.choiceFirst hGoes)
  | choiceSecond =>
    cases hTask with
    | choice _ hSecond hExcludes =>
      exact .inl (awaits_of_goes hGoal (List.nil_append text).symm hPlace hSecond hRest hNeed
        fun _ _ _ hGoes => Goes.choiceSecond hExcludes hGoes)
  | optionalBody | unlessBody => cases hTask
  | manyFirst =>
    cases hTask with
    | many hTask =>
      cases hTask with
      | again hBody hRefuses hGuards =>
        have hDone (length : Nat) := Goes.done (hRefuses _ hNeed length)
        exact .inl (awaits_of_goes hGoal (List.nil_append text).symm hPlace hBody hRest
          (hGuards (hDone 0) hNeed) fun length _ _ hGoes =>
            Goes.many (Goes.more hGoes (hDone length)) (Mode.behindGap_idem ..))
  | manyAgain hReads =>
    cases hTask with
    | many hTask =>
      refine .inl (awaits_of_goes hGoal hReads.text_eq trivial hTask hRest hNeed ?_)
      intro length behind hBehind hGoes
      cases hTask with
      | again hBody _ hGuards =>
        have hStart := hReads.goes length hRules rfl rfl hPlace hBody hBehind (hGuards hGoes hNeed)
        exact Goes.many (Goes.more hStart hGoes) (Mode.behindGap_idem ..)
  | againFirst =>
    cases hTask with
    | again hBody hRefuses hGuards =>
      have hDone (length : Nat) := Goes.done (hRefuses _ hNeed length)
      refine .inl (awaits_of_goes hGoal (Mode.gap_append_behindGap ..).symm
        (Mode.behindGap_idem ..) hBody hRest (hGuards (hDone 0) hNeed) ?_)
      intro length behind _ hGoes
      rw [Mode.behindGap_gap_append]
      exact Goes.more hGoes (hDone length)
  | @againMore _ _ _ stop pieces hReads =>
    have hText := Mode.gap_append_behindGap .initial grammar.isBlank text
    rw [hReads.text_eq, ← List.append_assoc] at hText
    refine .inl (awaits_of_goes hGoal hText.symm trivial hTask hRest hNeed ?_)
    intro length behind hBehind hGoes
    cases hTask with
    | again hBody _ hGuards =>
      have hStart := hReads.goes length hRules rfl rfl (Mode.behindGap_idem ..) hBody hBehind
        (hGuards hGoes hNeed)
      rw [List.append_assoc, Mode.behindGap_gap_append]
      exact Goes.more hStart hGoes

/-- A text for a rule that is awaited completes the whole, with more text behind it. -/
theorem Awaits.exists_goal {rule : R} {mode : Mode} {text : List Char}
    (h : Awaits grammar known needOf goal whole ⟨.once (.rule rule), mode, text⟩) :
    known rule = true ∧
      ∃ before rest, whole = before ++ text ∧ goal (before ++ ' ' :: (textOf rule ++ rest)) := by
  obtain ⟨-, -, before, rest, need, hText, hTask, hRest, hNeed, hGoal⟩ := h
  have hKnown : known rule = true := by
    cases hTask with
    | rule hRule => exact hRule
  have hSample := hTask.goes_sample (before ++ ' ' :: (textOf rule ++ rest)).length hRules hBlank
    hTexts hRest hNeed
  refine ⟨hKnown, before, rest, hText, hGoal _ ?_ hSample⟩
  rintro c ⟨⟩
  exact .inl hBlank

end Calls

end RowFilter.Grammar
