import RowFilter.Proofs.Grammar.Alike
import RowFilter.Proofs.Grammar.Locality

/-! Readings of two related texts. If the rules that read characters come to
alike outcomes on related texts, and related texts are left behind them, then so
do the rules that only join others. -/

namespace RowFilter.Grammar

variable {R : Type}

/-- Whether an expression joins rules and tests no text itself. -/
def Expr.joins (known : R → Bool) : Expr R → Bool
  | .rule r => known r
  | .seq first second | .choice first second => first.joins known && second.joins known
  | .optional body | .many body => body.joins known
  | .literal _ | .word _ | .oneOf _ | .atStart | .atEnd | .unless _ => false

/-- Outcomes with alike pieces in front of related texts. -/
inductive Outcome.Alike (keeps : R → Bool) (related : List Char → List Char → Prop) :
    Outcome R → Outcome R → Prop where
  | failure : Outcome.Alike keeps related none none
  | success {pieces others : List (Piece R)} {rest behind : List Char}
      (hPieces : Piece.AllAlike keeps pieces others) (hRest : related rest behind) :
      Outcome.Alike keeps related (some (pieces, rest)) (some (others, behind))

/-- What a task comes to on related texts, the last parts of whole texts of the given lengths. -/
def Simulates (grammar : Grammar R) (length other : Nat) (keeps : R → Bool)
    (related : List Char → List Char → Prop) (task : Task R) : Prop :=
  ∀ ⦃text behind : List Char⦄ ⦃outcome : Outcome R⦄, related text behind →
    Reads grammar length task .initial text outcome →
    ∃ result, Reads grammar other task .initial behind result ∧
      Outcome.Alike keeps related outcome result

/-- Whether related texts are related behind the gaps that they begin with. -/
def PassesGaps (grammar : Grammar R) (related : List Char → List Char → Prop) : Prop :=
  ∀ ⦃text behind : List Char⦄, related text behind →
    related (Mode.initial.behindGap grammar.isBlank text)
      (Mode.initial.behindGap grammar.isBlank behind)

/-- Why a rule comes to alike outcomes on related texts. -/
inductive IsSimulated (grammar : Grammar R) (length other : Nat) (keeps known : R → Bool)
    (related : List Char → List Char → Prop) (rule : R) : Prop where
  | leaf (h : Simulates grammar length other keeps related (.once (.rule rule)))
  | joined (hInside : (grammar.kind rule).inside .initial = .initial)
      (hBody : (grammar.body rule).joins known = true) (hKeeps : keeps rule = false)

variable {grammar : Grammar R} {length other : Nat} {keeps known : R → Bool}
  {related : List Char → List Char → Prop}

/-- A rule around alike outcomes. -/
theorem Outcome.Alike.ofBody {outcome result : Outcome R}
    (h : Outcome.Alike keeps related outcome result) (shows : Bool) {rule : R}
    (hKeeps : keeps rule = false) :
    Outcome.Alike keeps related (outcome.ofBody shows rule) (result.ofBody shows rule) := by
  cases shows with
  | false => exact h
  | true =>
    cases h with
    | failure => exact .failure
    | success hPieces hRest =>
      refine .success (.singleton (fun hText => ?_) hPieces) hRest
      rw [hKeeps] at hText
      cases hText

private theorem Reads.simulates (hGap : PassesGaps grammar related)
    (hRules : ∀ rule, known rule = true →
      IsSimulated grammar length other keeps known related rule)
    {task : Task R} {mode : Mode} {text behind : List Char} {outcome : Outcome R}
    (h : Reads grammar length task mode text outcome) (hMode : mode = .initial)
    (hTask : task.expr.joins known = true) (hText : related text behind) :
    ∃ result, Reads grammar other task .initial behind result ∧
      Outcome.Alike keeps related outcome result := by
  -- The induction is on the reading, so a rule within itself is no special case.
  induction h generalizing behind with
  | literal | word | oneOf | atStart | atEnd | unlessSome | unlessNone => cases hTask
  | @rule rule mode text outcome hBody ih =>
    subst hMode
    rcases hRules rule hTask with hLeaf | ⟨hInside, hJoins, hKeeps⟩
    · exact hLeaf hText (.rule hBody)
    · obtain ⟨result, hResult, hAlike⟩ := ih hInside hJoins hText
      rw [← hInside] at hResult
      exact ⟨_, .rule hResult, hAlike.ofBody _ hKeeps⟩
  | seqFirst _ ih =>
    obtain ⟨_, hFirst, ⟨⟩⟩ := ih hMode (Bool.and_eq_true_iff.1 hTask).1 hText
    exact ⟨none, .seqFirst hFirst, .failure⟩
  | seqSecond _ _ ihFirst ihSecond =>
    subst hMode
    obtain ⟨hTaskFirst, hTaskSecond⟩ := Bool.and_eq_true_iff.1 hTask
    obtain ⟨_, hFirst, hAlike⟩ := ihFirst rfl hTaskFirst hText
    cases hAlike with
    | success _ hRest =>
      obtain ⟨_, hSecond, ⟨⟩⟩ := ihSecond rfl hTaskSecond (hGap hRest)
      exact ⟨none, .seqSecond hFirst hSecond, .failure⟩
  | seq _ _ ihFirst ihSecond =>
    subst hMode
    obtain ⟨hTaskFirst, hTaskSecond⟩ := Bool.and_eq_true_iff.1 hTask
    obtain ⟨_, hFirst, hAlike⟩ := ihFirst rfl hTaskFirst hText
    cases hAlike with
    | success hPieces hRest =>
      obtain ⟨_, hSecond, hAlike⟩ := ihSecond rfl hTaskSecond (hGap hRest)
      cases hAlike with
      | success hOthers hStop =>
        exact ⟨_, .seq hFirst hSecond, .success ((hPieces.append (.chars _ _)).append hOthers) hStop⟩
  | choiceFirst _ ih =>
    obtain ⟨_, hFirst, hAlike⟩ := ih hMode (Bool.and_eq_true_iff.1 hTask).1 hText
    cases hAlike with
    | success hPieces hRest => exact ⟨_, .choiceFirst hFirst, .success hPieces hRest⟩
  | choiceSecond _ _ ihFirst ihSecond =>
    obtain ⟨hTaskFirst, hTaskSecond⟩ := Bool.and_eq_true_iff.1 hTask
    obtain ⟨_, hFirst, ⟨⟩⟩ := ihFirst hMode hTaskFirst hText
    obtain ⟨result, hSecond, hAlike⟩ := ihSecond hMode hTaskSecond hText
    exact ⟨result, .choiceSecond hFirst hSecond, hAlike⟩
  | optionalSome _ ih =>
    obtain ⟨_, hBody, hAlike⟩ := ih hMode hTask hText
    cases hAlike with
    | success hPieces hRest => exact ⟨_, .optionalSome hBody, .success hPieces hRest⟩
  | optionalNone _ ih =>
    obtain ⟨_, hBody, ⟨⟩⟩ := ih hMode hTask hText
    exact ⟨_, .optionalNone hBody, .success .nil hText⟩
  | manyNone _ ih =>
    obtain ⟨_, hBody, ⟨⟩⟩ := ih hMode hTask hText
    exact ⟨_, .manyNone hBody, .success .nil hText⟩
  | many _ _ ihBody ihAgain =>
    obtain ⟨_, hBody, hAlike⟩ := ihBody hMode hTask hText
    cases hAlike with
    | success hPieces hRest =>
      obtain ⟨_, hAgain, hAlike⟩ := ihAgain hMode hTask hRest
      cases hAlike with
      | success hOthers hStop =>
        exact ⟨_, .many hBody hAgain, .success (hPieces.append hOthers) hStop⟩
  | againNone _ ih =>
    subst hMode
    obtain ⟨_, hBody, ⟨⟩⟩ := ih rfl hTask (hGap hText)
    exact ⟨_, .againNone hBody, .success .nil hText⟩
  | again _ _ ihBody ihAgain =>
    subst hMode
    obtain ⟨_, hBody, hAlike⟩ := ihBody rfl hTask (hGap hText)
    cases hAlike with
    | success hPieces hRest =>
      obtain ⟨_, hAgain, hAlike⟩ := ihAgain rfl hTask hRest
      cases hAlike with
      | success hOthers hStop =>
        refine ⟨_, .again hBody hAgain, .success ?_ hStop⟩
        exact ((Piece.AllAlike.chars _ _).append hPieces).append hOthers

/-- What expressions of simulated rules come to on related texts. -/
theorem Simulates.of_joins (hGap : PassesGaps grammar related)
    (hRules : ∀ rule, known rule = true →
      IsSimulated grammar length other keeps known related rule)
    {expr : Expr R} (hExpr : expr.joins known = true) :
    Simulates grammar length other keeps related (.once expr) :=
  fun _ _ _ hText hReads => hReads.simulates hGap hRules rfl hExpr hText

end RowFilter.Grammar
