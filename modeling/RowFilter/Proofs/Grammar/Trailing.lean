import Mathlib.Data.List.TakeWhile
import RowFilter.Proofs.Grammar.Simulation
import RowFilter.Proofs.Grammar.Stable

/-! Blanks at the end of a text. If the rules that read characters read a text
alike whether blanks stand behind it or not, then so do the rules that join
them. Only what goes on as long as it can may end with the gap at the end of
the text, and then it takes what is added to that gap as well. -/

namespace RowFilter.Grammar

variable {R : Type}

/-- Pieces to which blanks are added at the end, inside matches of rules that are not tight. -/
inductive Piece.Trails (tight : R → Bool) : List (Piece R) → List (Piece R) → Prop where
  | chars (pieces : List (Piece R)) (blanks : List Char) :
      Trails tight pieces (pieces ++ Piece.chars blanks)
  | shown (before : List (Piece R)) {rule : R} {parts others : List (Piece R)}
      (hRule : tight rule = false) (h : Trails tight parts others) :
      Trails tight (before ++ [.shown rule parts]) (before ++ [.shown rule others])

/-- Outcomes on a text and on the text with blanks behind it. The blanks are left, unless what is
read goes on up to the end and need not be tight. -/
inductive Outcome.Trails (tight : R → Bool) (blanks : List Char) (isTight : Bool) :
    Outcome R → Outcome R → Prop where
  | failure : Outcome.Trails tight blanks isTight none none
  | left {pieces : List (Piece R)} {rest : List Char} :
      Outcome.Trails tight blanks isTight (some (pieces, rest)) (some (pieces, rest ++ blanks))
  | taken {pieces others : List (Piece R)} (hTight : isTight = false)
      (hPieces : Piece.Trails tight pieces others) :
      Outcome.Trails tight blanks isTight (some (pieces, [])) (some (others, []))

/-- Whether an expression ends with a tight rule that takes a character. -/
def Expr.isTight (tight consuming : R → Bool) : Expr R → Bool
  | .rule r => tight r
  | .seq _ second => second.isTight tight consuming && second.consumes consuming
  | .choice first second => first.isTight tight consuming && second.isTight tight consuming
  | .optional _ | .many _ | .literal _ | .word _ | .oneOf _ | .atStart | .atEnd | .unless _ => false

/-- Whether a task ends with a tight rule. Further rounds need not follow. -/
def Task.isTight (tight consuming : R → Bool) : Task R → Bool
  | once expr => expr.isTight tight consuming
  | again _ => false

/-- Why blanks behind a text do not matter to what a rule reads. -/
inductive IsTrailed (grammar : Grammar R) (known tight consuming : R → Bool) (rule : R) : Prop where
  /-- They are left. -/
  | leaf (h : ∀ {length other : Nat} {text blanks : List Char} {outcome : Outcome R},
      (∀ c ∈ blanks, grammar.isBlank c = true) → text.length ≤ length →
      text.length + blanks.length ≤ other → Mode.initial.behindGap grammar.isBlank text = text →
      Reads grammar length (.once (.rule rule)) .initial text outcome →
      Reads grammar other (.once (.rule rule)) .initial (text ++ blanks)
        (outcome.followedBy blanks))
  /-- They do not matter to the rules that it joins. -/
  | joined (hInside : (grammar.kind rule).inside .initial = .initial)
      (hBody : (grammar.body rule).joins known = true)
      (hTight : tight rule = true → (grammar.body rule).isTight tight consuming = true)

section Gaps

variable {isBlank : Char → Bool} {text blanks : List Char}

/-- Blanks behind a text are behind its first gap, or all that is there is one gap. -/
theorem Mode.gap_append_blanks (hBlanks : ∀ c ∈ blanks, isBlank c = true) :
    (Mode.initial.gap isBlank (text ++ blanks) = Mode.initial.gap isBlank text ∧
      Mode.initial.behindGap isBlank (text ++ blanks) =
        Mode.initial.behindGap isBlank text ++ blanks) ∨
    (Mode.initial.behindGap isBlank text = [] ∧
      Mode.initial.behindGap isBlank (text ++ blanks) = [] ∧
      Mode.initial.gap isBlank (text ++ blanks) = Mode.initial.gap isBlank text ++ blanks) := by
  by_cases hNil : Mode.initial.behindGap isBlank text = []
  · have hBehind : Mode.initial.behindGap isBlank blanks = [] :=
      List.dropWhile_eq_nil_iff.2 hBlanks
    rw [← Mode.behindGap_append_of_nil hNil] at hBehind
    have hText := Mode.initial.gap_append_behindGap isBlank text
    have hAll := Mode.initial.gap_append_behindGap isBlank (text ++ blanks)
    rw [hNil, List.append_nil] at hText
    rw [hBehind, List.append_nil] at hAll
    exact .inr ⟨hNil, hBehind, by rw [hAll, hText]⟩
  · exact .inl ⟨Mode.gap_append hNil blanks, Mode.behindGap_append hNil blanks⟩

end Gaps

variable {grammar : Grammar R} {known tight consuming : R → Bool} {length other : Nat}
  {text blanks rest behind : List Char} {pieces others : List (Piece R)}

theorem Piece.Trails.prepend (before : List (Piece R)) (h : Piece.Trails tight pieces others) :
    Piece.Trails tight (before ++ pieces) (before ++ others) := by
  cases h with
  | chars _ blanks =>
    rw [← List.append_assoc]
    exact .chars _ blanks
  | shown ahead hRule h =>
    rw [← List.append_assoc, ← List.append_assoc]
    exact .shown _ hRule h

namespace Outcome

variable {outcome result : Outcome R} {isTight : Bool}

theorem ofBody_followedBy (shows : Bool) (rule : R) (outcome : Outcome R) :
    (outcome.followedBy blanks).ofBody shows rule =
      (outcome.ofBody shows rule).followedBy blanks := by
  cases shows <;> cases outcome <;> rfl

theorem trails_followedBy (outcome : Outcome R) :
    Outcome.Trails tight blanks isTight outcome (outcome.followedBy blanks) := by
  cases outcome with
  | none => exact .failure
  | some => exact .left

namespace Trails

theorem of_imp (h : Outcome.Trails tight blanks isTight outcome result) {other : Bool}
    (hTight : other = true → isTight = true) :
    Outcome.Trails tight blanks other outcome result := by
  cases h with
  | failure => exact .failure
  | left => exact .left
  | taken hFalse hPieces =>
    refine .taken (Bool.eq_false_iff.2 fun hTrue => ?_) hPieces
    rw [hTight hTrue] at hFalse
    cases hFalse

theorem pieces_trails
    (h : Outcome.Trails tight blanks isTight (some (pieces, rest)) (some (others, behind))) :
    Piece.Trails tight pieces others := by
  cases h with
  | left => simpa [Piece.chars] using Piece.Trails.chars pieces []
  | taken _ hPieces => exact hPieces

/-- More pieces in front of those that were read. -/
theorem prepend (before : List (Piece R))
    (h : Outcome.Trails tight blanks isTight (some (pieces, rest)) (some (others, behind))) :
    Outcome.Trails tight blanks isTight (some (before ++ pieces, rest))
      (some (before ++ others, behind)) := by
  cases h with
  | left => exact .left
  | taken hTight hPieces => exact .taken hTight (hPieces.prepend before)

/-- A rule around what was read. -/
theorem ofBody {rule : R} (h : Outcome.Trails tight blanks isTight outcome result) (shows : Bool)
    (hRule : tight rule = true → isTight = true) :
    Outcome.Trails tight blanks (tight rule) (outcome.ofBody shows rule)
      (result.ofBody shows rule) := by
  cases shows with
  | false => exact h.of_imp hRule
  | true =>
    cases h.of_imp hRule with
    | failure => exact .failure
    | left => exact .left
    | taken hTight hPieces => exact .taken hTight (.shown [] hTight hPieces)

/-- The gap behind what was read: the blanks are behind it, or part of it. -/
theorem gap {isBlank : Char → Bool} (hBlanks : ∀ c ∈ blanks, isBlank c = true)
    (h : Outcome.Trails tight blanks isTight (some (pieces, rest)) (some (others, behind))) :
    (others = pieces ∧ Mode.initial.gap isBlank behind = Mode.initial.gap isBlank rest ∧
      Mode.initial.behindGap isBlank behind = Mode.initial.behindGap isBlank rest ++ blanks) ∨
    (Mode.initial.behindGap isBlank rest = [] ∧ Mode.initial.behindGap isBlank behind = [] ∧
      Piece.Trails tight (pieces ++ Piece.chars (Mode.initial.gap isBlank rest))
        (others ++ Piece.chars (Mode.initial.gap isBlank behind))) := by
  cases h with
  | left =>
    rcases Mode.gap_append_blanks hBlanks with ⟨hGap, hBehind⟩ | ⟨hRest, hBehind, hGap⟩
    · exact .inl ⟨rfl, hGap, hBehind⟩
    · refine .inr ⟨hRest, hBehind, ?_⟩
      rw [hGap, Piece.chars_append, ← List.append_assoc]
      exact .chars _ blanks
  | taken _ hPieces =>
    have hNil : Piece.chars (Mode.initial.gap isBlank []) = ([] : List (Piece R)) := rfl
    rw [hNil, List.append_nil, List.append_nil]
    exact .inr ⟨rfl, rfl, hPieces⟩

end Trails

end Outcome

private theorem Reads.of_nil
    (hRules : ∀ rule, known rule = true → ∀ length,
      Reads grammar length (.once (.rule rule)) .initial [] none)
    {task : Task R} {mode : Mode} {outcome : Outcome R}
    (h : Reads grammar length task mode text outcome) (hMode : mode = .initial) (hText : text = [])
    (hTask : task.expr.joins known = true) (other : Nat) :
    (∀ success, outcome = some success → success = ([], [])) ∧
      Reads grammar other task .initial [] outcome := by
  -- The induction is on the reading: where nothing stands, the rounds of a repetition are no
  -- special case.
  induction h with
  | literal | word | oneOf | atStart | atEnd | unlessSome | unlessNone => cases hTask
  | @rule rule _ _ _ hBody =>
    subst hMode hText
    have hNone := hRules rule hTask
    rw [(Reads.rule hBody).unique (hNone length)]
    exact ⟨nofun, hNone other⟩
  | seqFirst _ ih =>
    exact ⟨nofun, .seqFirst (ih hMode hText (Bool.and_eq_true_iff.1 hTask).1).2⟩
  | seqSecond _ _ ihFirst ihSecond =>
    subst hMode
    obtain ⟨hTaskFirst, hTaskSecond⟩ := Bool.and_eq_true_iff.1 hTask
    obtain ⟨hNil, hFirst⟩ := ihFirst rfl hText hTaskFirst
    cases hNil _ rfl
    exact ⟨nofun, .seqSecond hFirst (ihSecond rfl rfl hTaskSecond).2⟩
  | seq _ _ ihFirst ihSecond =>
    subst hMode
    obtain ⟨hTaskFirst, hTaskSecond⟩ := Bool.and_eq_true_iff.1 hTask
    obtain ⟨hNil, hFirst⟩ := ihFirst rfl hText hTaskFirst
    cases hNil _ rfl
    obtain ⟨hOthers, hSecond⟩ := ihSecond rfl rfl hTaskSecond
    cases hOthers _ rfl
    exact ⟨hNil, .seq hFirst hSecond⟩
  | choiceFirst _ ih =>
    obtain ⟨hNil, hFirst⟩ := ih hMode hText (Bool.and_eq_true_iff.1 hTask).1
    exact ⟨hNil, .choiceFirst hFirst⟩
  | choiceSecond _ _ ihFirst ihSecond =>
    obtain ⟨hTaskFirst, hTaskSecond⟩ := Bool.and_eq_true_iff.1 hTask
    obtain ⟨hNil, hSecond⟩ := ihSecond hMode hText hTaskSecond
    exact ⟨hNil, .choiceSecond (ihFirst hMode hText hTaskFirst).2 hSecond⟩
  | optionalSome _ ih =>
    obtain ⟨hNil, hBody⟩ := ih hMode hText hTask
    exact ⟨hNil, .optionalSome hBody⟩
  | optionalNone _ ih =>
    subst hText
    exact ⟨fun _ h => (Option.some.inj h).symm, .optionalNone (ih hMode rfl hTask).2⟩
  | manyNone _ ih =>
    subst hText
    exact ⟨fun _ h => (Option.some.inj h).symm, .manyNone (ih hMode rfl hTask).2⟩
  | many _ _ ihBody ihAgain =>
    obtain ⟨hNil, hBody⟩ := ihBody hMode hText hTask
    cases hNil _ rfl
    obtain ⟨hOthers, hAgain⟩ := ihAgain hMode rfl hTask
    exact ⟨hOthers, .many hBody hAgain⟩
  | againNone _ ih =>
    subst hMode hText
    exact ⟨fun _ h => (Option.some.inj h).symm, .againNone (ih rfl rfl hTask).2⟩
  | again _ _ ihBody ihAgain =>
    subst hMode hText
    obtain ⟨hNil, hBody⟩ := ihBody rfl rfl hTask
    cases hNil _ rfl
    obtain ⟨hOthers, hAgain⟩ := ihAgain rfl rfl hTask
    exact ⟨hOthers, .again hBody hAgain⟩

private theorem Outcome.Trails.seq {rank : R → Nat} (hRanked : Ranked grammar rank consuming)
    (hKnown : ∀ rule, known rule = true → ∀ length,
      Reads grammar length (.once (.rule rule)) .initial [] none)
    (hBlanks : ∀ c ∈ blanks, grammar.isBlank c = true) {first second : Expr R} {whole : List Char}
    {isTight : Bool} {outcome : Outcome R} (hTask : second.joins known = true)
    (h : Outcome.Trails tight blanks isTight (some (pieces, rest)) (some (others, behind)))
    (hFirst : Reads grammar other (.once first) .initial whole (some (others, behind)))
    (hSecond : Reads grammar length (.once second) .initial
      (Mode.initial.behindGap grammar.isBlank rest) outcome)
    (hMore : ∃ result, Reads grammar other (.once second) .initial
      (Mode.initial.behindGap grammar.isBlank rest ++ blanks) result ∧
        Outcome.Trails tight blanks (second.isTight tight consuming) outcome result) :
    ∃ result, Reads grammar other (.once (.seq first second)) .initial whole result ∧
      Outcome.Trails tight blanks ((Expr.seq first second).isTight tight consuming)
        (outcome.map fun (parts, stop) =>
          (pieces ++ Piece.chars (Mode.initial.gap grammar.isBlank rest) ++ parts, stop))
        result := by
  rcases h.gap hBlanks with ⟨rfl, hGap, hBehind⟩ | ⟨hRest, hBehind, hPieces⟩
  · obtain ⟨result, hResult, hTrails⟩ := hMore
    rw [← hBehind] at hResult
    have hImp : (Expr.seq first second).isTight tight consuming = true →
        second.isTight tight consuming = true := fun hBoth => (Bool.and_eq_true_iff.1 hBoth).1
    cases hTrails.of_imp hImp with
    | failure => exact ⟨none, .seqSecond hFirst hResult, .failure⟩
    | left =>
      rw [← hGap]
      exact ⟨_, .seq hFirst hResult, .left⟩
    | taken hTight hOthers =>
      rw [← hGap]
      exact ⟨_, .seq hFirst hResult, .taken hTight (hOthers.prepend _)⟩
  · rw [hRest] at hSecond
    obtain ⟨hNil, hResult⟩ := hSecond.of_nil hKnown rfl rfl hTask other
    rw [← hBehind] at hResult
    cases outcome with
    | none => exact ⟨none, .seqSecond hFirst hResult, .failure⟩
    | some success =>
      obtain ⟨parts, stop⟩ := success
      cases hNil _ rfl
      have hTight : (Expr.seq first second).isTight tight consuming = false := by
        refine Bool.eq_false_iff.2 fun hTrue => ?_
        exact hRanked.text_ne_nil hSecond (Bool.and_eq_true_iff.1 hTrue).2 rfl
      refine ⟨_, .seq hFirst hResult, .taken hTight ?_⟩
      rwa [List.append_nil, List.append_nil]

private theorem Outcome.Trails.again
    (hKnown : ∀ rule, known rule = true → ∀ length,
      Reads grammar length (.once (.rule rule)) .initial [] none)
    {body : Expr R} {parts : List (Piece R)} {stop : List Char} {isTight : Bool}
    (hTask : body.joins known = true)
    (h : Outcome.Trails tight blanks isTight (some (pieces, rest)) (some (others, behind)))
    (hAgain : Reads grammar length (.again body) .initial rest (some (parts, stop)))
    (hMore : ∃ result, Reads grammar other (.again body) .initial (rest ++ blanks) result ∧
      Outcome.Trails tight blanks false (some (parts, stop)) result) :
    ∃ more last, Reads grammar other (.again body) .initial behind (some (more, last)) ∧
      Outcome.Trails tight blanks false (some (pieces ++ parts, stop)) (some (others ++ more, last))
      := by
  cases h with
  | left =>
    obtain ⟨_, hResult, hTrails⟩ := hMore
    cases hTrails with
    | left => exact ⟨_, _, hResult, .left⟩
    | taken _ hPieces => exact ⟨_, _, hResult, .taken rfl (hPieces.prepend _)⟩
  | taken _ hPieces =>
    obtain ⟨hNil, hResult⟩ := hAgain.of_nil hKnown rfl rfl hTask other
    cases hNil _ rfl
    refine ⟨_, _, hResult, .taken rfl ?_⟩
    rwa [List.append_nil, List.append_nil]

private theorem Reads.trails {rank : R → Nat} (hRanked : Ranked grammar rank consuming)
    (hKnown : ∀ rule, known rule = true → ∀ length,
      Reads grammar length (.once (.rule rule)) .initial [] none)
    (hRules : ∀ rule, known rule = true → IsTrailed grammar known tight consuming rule)
    (hBlanks : ∀ c ∈ blanks, grammar.isBlank c = true)
    {task : Task R} {mode : Mode} {outcome : Outcome R}
    (h : Reads grammar length task mode text outcome) (hMode : mode = .initial)
    (hTask : task.expr.joins known = true) (hLength : text.length ≤ length)
    (hOther : text.length + blanks.length ≤ other)
    (hStart : ∀ expr, task = .once expr → Mode.initial.behindGap grammar.isBlank text = text) :
    ∃ result, Reads grammar other task .initial (text ++ blanks) result ∧
      Outcome.Trails tight blanks (task.isTight tight consuming) outcome result := by
  -- The induction is on the reading. Where the blanks lengthen the gap that a sequence or a
  -- repetition skips, nothing is left behind the gap.
  induction h with
  | literal | word | oneOf | atStart | atEnd | unlessSome | unlessNone => cases hTask
  | @rule rule mode text outcome hBody ih =>
    subst hMode
    have hText := hStart _ rfl
    rcases hRules rule hTask with hLeaf | ⟨hInside, hJoins, hTight⟩
    · exact ⟨_, hLeaf hBlanks hLength hOther hText (.rule hBody), Outcome.trails_followedBy _⟩
    · obtain ⟨result, hResult, hTrails⟩ := ih hInside hJoins hLength hOther fun _ _ => hText
      rw [← hInside] at hResult
      exact ⟨_, .rule hResult, hTrails.ofBody _ hTight⟩
  | seqFirst _ ih =>
    obtain ⟨_, hFirst, ⟨⟩⟩ := ih hMode (Bool.and_eq_true_iff.1 hTask).1 hLength hOther
      fun _ _ => hStart _ rfl
    exact ⟨none, .seqFirst hFirst, .failure⟩
  | seqSecond hReads hSecond ihFirst ihSecond | seq hReads hSecond ihFirst ihSecond =>
    subst hMode
    obtain ⟨hTaskFirst, hTaskSecond⟩ := Bool.and_eq_true_iff.1 hTask
    have hGapLe :=
      Nat.le_trans (Mode.initial.length_behindGap_le grammar.isBlank _) hReads.length_le
    obtain ⟨_ | _, hFirst, hTrails⟩ :=
      ihFirst rfl hTaskFirst hLength hOther fun _ _ => hStart _ rfl
    · cases hTrails
    · exact hTrails.seq hRanked hKnown hBlanks hTaskSecond hFirst hSecond
        (ihSecond rfl hTaskSecond (by omega) (by omega) fun _ _ => Mode.behindGap_idem ..)
  | choiceFirst _ ih =>
    obtain ⟨_ | _, hFirst, hTrails⟩ := ih hMode (Bool.and_eq_true_iff.1 hTask).1 hLength hOther
      fun _ _ => hStart _ rfl
    · cases hTrails
    · exact ⟨_, .choiceFirst hFirst, hTrails.of_imp fun hBoth => (Bool.and_eq_true_iff.1 hBoth).1⟩
  | choiceSecond _ _ ihFirst ihSecond =>
    obtain ⟨hTaskFirst, hTaskSecond⟩ := Bool.and_eq_true_iff.1 hTask
    obtain ⟨_, hFirst, ⟨⟩⟩ := ihFirst hMode hTaskFirst hLength hOther fun _ _ => hStart _ rfl
    obtain ⟨result, hSecond, hTrails⟩ :=
      ihSecond hMode hTaskSecond hLength hOther fun _ _ => hStart _ rfl
    exact ⟨result, .choiceSecond hFirst hSecond,
      hTrails.of_imp fun hBoth => (Bool.and_eq_true_iff.1 hBoth).2⟩
  | optionalSome _ ih =>
    obtain ⟨_ | _, hBody, hTrails⟩ := ih hMode hTask hLength hOther fun _ _ => hStart _ rfl
    · cases hTrails
    · exact ⟨_, .optionalSome hBody, hTrails.of_imp nofun⟩
  | optionalNone _ ih =>
    obtain ⟨_, hBody, ⟨⟩⟩ := ih hMode hTask hLength hOther fun _ _ => hStart _ rfl
    exact ⟨_, .optionalNone hBody, .left⟩
  | manyNone _ ih =>
    obtain ⟨_, hBody, ⟨⟩⟩ := ih hMode hTask hLength hOther fun _ _ => hStart _ rfl
    exact ⟨_, .manyNone hBody, .left⟩
  | @many body _ _ _ _ _ _ hReads hRounds ihBody ihAgain =>
    subst hMode
    have hBodyTask : body.joins known = true := hTask
    have hRestLe := hReads.length_le
    obtain ⟨_ | _, hBody, hTrails⟩ := ihBody rfl hTask hLength hOther fun _ _ => hStart _ rfl
    · cases hTrails
    · obtain ⟨_, _, hAgain, hAll⟩ := hTrails.again hKnown hBodyTask hRounds
        (ihAgain rfl hTask (by omega) (by omega) nofun)
      exact ⟨_, .many hBody hAgain, hAll⟩
  | @againNone body mode text hNone ih =>
    subst hMode
    have hGapLe := Mode.initial.length_behindGap_le grammar.isBlank text
    rcases Mode.gap_append_blanks hBlanks with ⟨-, hBehind⟩ | ⟨hNil, hBehind, -⟩
    · obtain ⟨_, hBody, ⟨⟩⟩ :=
        ih rfl hTask (by omega) (by omega) fun _ _ => Mode.behindGap_idem ..
      rw [← hBehind] at hBody
      exact ⟨_, .againNone hBody, .left⟩
    · rw [hNil] at hNone
      have hBody := (hNone.of_nil hKnown rfl rfl hTask other).2
      rw [← hBehind] at hBody
      exact ⟨_, .againNone hBody, .left⟩
  | @again body mode text _ _ _ _ hReads hRounds ihBody ihAgain =>
    subst hMode
    have hBodyTask : body.joins known = true := hTask
    have hRestLe := hReads.length_le
    have hGapLe := Mode.initial.length_behindGap_le grammar.isBlank text
    rcases Mode.gap_append_blanks hBlanks with ⟨hGap, hBehind⟩ | ⟨hNil, hBehind, hGap⟩
    · obtain ⟨_ | _, hBody, hTrails⟩ :=
        ihBody rfl hTask (by omega) (by omega) fun _ _ => Mode.behindGap_idem ..
      · cases hTrails
      · obtain ⟨_, _, hAgain, hAll⟩ := hTrails.again hKnown hBodyTask hRounds
          (ihAgain rfl hTask (by omega) (by omega) nofun)
        rw [← hBehind] at hBody
        refine ⟨_, .again hBody hAgain, ?_⟩
        rw [hGap, List.append_assoc, List.append_assoc]
        exact hAll.prepend _
    · rw [hNil] at hReads
      obtain ⟨hPieces, hBody⟩ := hReads.of_nil hKnown rfl rfl hTask other
      rw [← hBehind] at hBody
      cases hPieces _ rfl
      obtain ⟨hOthers, hAgain⟩ := hRounds.of_nil hKnown rfl rfl hTask other
      cases hOthers _ rfl
      refine ⟨_, .again hBody hAgain, .taken rfl ?_⟩
      rw [hGap, List.append_nil, List.append_nil, List.append_nil, List.append_nil,
        Piece.chars_append]
      exact .chars _ blanks

/-- Blanks behind a text do not matter to expressions of rules to which they do not matter. -/
theorem Reads.exists_trails {rank : R → Nat} (hRanked : Ranked grammar rank consuming)
    (hKnown : ∀ rule, known rule = true → ∀ length,
      Reads grammar length (.once (.rule rule)) .initial [] none)
    (hRules : ∀ rule, known rule = true → IsTrailed grammar known tight consuming rule)
    (hBlanks : ∀ c ∈ blanks, grammar.isBlank c = true) {expr : Expr R} {outcome : Outcome R}
    (h : Reads grammar length (.once expr) .initial text outcome)
    (hExpr : expr.joins known = true) (hLength : text.length ≤ length)
    (hOther : text.length + blanks.length ≤ other)
    (hStart : Mode.initial.behindGap grammar.isBlank text = text) :
    ∃ result, Reads grammar other (.once expr) .initial (text ++ blanks) result ∧
      Outcome.Trails tight blanks (expr.isTight tight consuming) outcome result :=
  h.trails hRanked hKnown hRules hBlanks rfl hExpr hLength hOther fun _ _ => hStart

end RowFilter.Grammar
