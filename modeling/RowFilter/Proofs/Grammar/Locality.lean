import RowFilter.Proofs.Grammar.Atomic

/-! What stands behind a word does not matter to how the word is read. An
expression that rejects some characters cannot tell a text that is followed
by one of them from a text that ends, and takes none of them. -/

namespace RowFilter.Grammar

variable {R : Type}

/-- Whether no test of an expression accepts one of some characters. The rules
of the expression are looked up among those that are known to reject them. -/
def Expr.rejects (rejecting : R → Bool) (ends : List Char) : Expr R → Bool
  | .literal text => text.toList.all fun a => ends.all fun c => a ≠ c
  | .word text => text.toList.all fun a => ends.all fun c => !sameLetter a c
  | .oneOf accepts => ends.all fun c => !accepts c
  | .atStart => false
  | .atEnd => false
  | .rule name => rejecting name
  | .seq first second => first.rejects rejecting ends && second.rejects rejecting ends
  | .choice first second => first.rejects rejecting ends && second.rejects rejecting ends
  | .optional body => body.rejects rejecting ends
  | .many body => body.rejects rejecting ends
  | .unless body => body.rejects rejecting ends

def Task.expr : Task R → Expr R
  | once expr => expr
  | again expr => expr

def Outcome.followedBy (behind : List Char) (outcome : Outcome R) : Outcome R :=
  outcome.map fun (pieces, rest) => (pieces, rest ++ behind)

/-- Characters that no test accepts do not change what is taken in front of them. -/
theorem takeAll?_append {tests : List (Char → Bool)} {behind : List Char}
    (hTests : ∀ test ∈ tests, ∀ c ∈ behind.head?, test c = false) (text : List Char) :
    takeAll? tests (text ++ behind) =
      (takeAll? tests text).map fun (taken, rest) => (taken, rest ++ behind) := by
  induction tests generalizing text with
  | nil => rfl
  | cons test tests ih =>
    rw [List.forall_mem_cons] at hTests
    cases text with
    | nil =>
      cases behind with
      | nil => rfl
      | cons c behind => simp [takeAll?, hTests.1 c rfl]
    | cons d text =>
      rw [List.cons_append, takeAll?, takeAll?, ih hTests.2]
      split
      · rw [Option.map_map, Option.map_map]
        rfl
      · rfl

private theorem followedBy_ofTaken {tests : List (Char → Bool)} {behind : List Char}
    (hTests : ∀ test ∈ tests, ∀ c ∈ behind.head?, test c = false) (text : List Char) :
    Outcome.ofTaken (takeAll? tests (text ++ behind)) =
      Outcome.followedBy (R := R) behind (.ofTaken (takeAll? tests text)) := by
  rw [takeAll?_append hTests, Outcome.ofTaken, Outcome.ofTaken, Outcome.followedBy, Option.map_map,
    Option.map_map]
  rfl

private theorem not_mem_of_takeAll? {tests : List (Char → Bool)} {ends text taken rest : List Char}
    (hTests : ∀ test ∈ tests, ∀ c ∈ ends, test c = false)
    (h : takeAll? tests text = some (taken, rest)) : ∀ c ∈ taken, c ∉ ends := by
  induction tests generalizing text taken with
  | nil =>
    cases h
    exact nofun
  | cons test tests ih =>
    rw [List.forall_mem_cons] at hTests
    cases text with
    | nil => cases h
    | cons d text =>
      rw [takeAll?] at h
      split at h
      · next hAccepts =>
        obtain ⟨⟨others, stop⟩, hOthers, hEq⟩ := Option.map_eq_some_iff.1 h
        cases hEq
        refine List.forall_mem_cons.2 ⟨fun hEnd => ?_, ih hTests.2 hOthers⟩
        rw [hTests.1 d hEnd] at hAccepts
        cases hAccepts
      · cases h

private theorem not_mem_of_ofTaken {tests : List (Char → Bool)} {ends text rest : List Char}
    {pieces : List (Piece R)} (hTests : ∀ test ∈ tests, ∀ c ∈ ends, test c = false)
    (h : some (pieces, rest) = Outcome.ofTaken (takeAll? tests text)) :
    ∀ c ∈ Piece.textOf pieces, c ∉ ends := by
  obtain ⟨taken, hTaken, rfl⟩ := Outcome.ofTaken_eq_some.1 h.symm
  rw [Piece.textOf_chars]
  exact not_mem_of_takeAll? hTests hTaken

namespace Reads

variable {grammar : Grammar R} {rejecting : R → Bool} {ends behind : List Char}

/-- Inside an atomic rule a text is read alike at the end of a whole text and
in front of a rejected character. -/
theorem followedBy (hRules : ∀ rule, rejecting rule = true →
      (grammar.body rule).rejects rejecting ends = true)
    (hBehind : ∀ c ∈ behind.head?, c ∈ ends) {length : Nat} (other : Nat) {task : Task R}
    {text : List Char} {outcome : Outcome R} (h : Reads grammar length task .atomic text outcome)
    (hRejects : task.expr.rejects rejecting ends = true) :
    Reads grammar other task .atomic (text ++ behind) (outcome.followedBy behind) := by
  generalize hMode : Mode.atomic = mode at h
  induction h with
  | literal word mode text =>
    rw [← followedBy_ofTaken]
    · exact .literal word mode _
    · simp only [Task.expr, Expr.rejects, List.all_eq_true, decide_eq_true_eq] at hRejects
      simp only [List.forall_mem_map, decide_eq_false_iff_not]
      exact fun a ha c hc => hRejects a ha c (hBehind c hc)
  | word word mode text =>
    rw [← followedBy_ofTaken]
    · exact .word word mode _
    · simp only [Task.expr, Expr.rejects, List.all_eq_true, Bool.not_eq_true'] at hRejects
      simp only [List.forall_mem_map]
      exact fun a ha c hc => hRejects a ha c (hBehind c hc)
  | oneOf accepts mode text =>
    rw [← followedBy_ofTaken]
    · exact .oneOf accepts mode _
    · simp only [Task.expr, Expr.rejects, List.all_eq_true, Bool.not_eq_true'] at hRejects
      simp only [List.forall_mem_singleton]
      exact fun c hc => hRejects c (hBehind c hc)
  | atStart | atEnd => cases hRejects
  | rule _ ih =>
    subst hMode
    rw [shows_atomic]
    have hBody := ih (hRules _ hRejects) (Kind.inside_atomic _).symm
    have hRule := Reads.rule hBody
    rwa [shows_atomic] at hRule
  | seqFirst _ ih =>
    rw [Task.expr, Expr.rejects, Bool.and_eq_true] at hRejects
    exact .seqFirst (ih hRejects.1 hMode)
  | seqSecond _ _ ihFirst ihSecond =>
    rw [Task.expr, Expr.rejects, Bool.and_eq_true] at hRejects
    subst hMode
    exact .seqSecond (ihFirst hRejects.1 rfl) (ihSecond hRejects.2 rfl)
  | @seq first second _ text rest _ pieces _ _ _ ihFirst ihSecond =>
    rw [Task.expr, Expr.rejects, Bool.and_eq_true] at hRejects
    subst hMode
    have hFirst : Reads grammar other (.once first) .atomic (text ++ behind)
        (some (pieces, rest ++ behind)) := ihFirst hRejects.1 rfl
    have hSeq := Reads.seq hFirst (ihSecond hRejects.2 rfl)
    exact hSeq
  | choiceFirst _ ih =>
    rw [Task.expr, Expr.rejects, Bool.and_eq_true] at hRejects
    exact .choiceFirst (ih hRejects.1 hMode)
  | choiceSecond _ _ ihFirst ihSecond =>
    rw [Task.expr, Expr.rejects, Bool.and_eq_true] at hRejects
    exact .choiceSecond (ihFirst hRejects.1 hMode) (ihSecond hRejects.2 hMode)
  | optionalSome _ ih => exact .optionalSome (ih hRejects hMode)
  | optionalNone _ ih => exact .optionalNone (ih hRejects hMode)
  | unlessSome _ ih =>
    subst hMode
    exact .unlessSome (ih hRejects rfl)
  | unlessNone _ ih =>
    subst hMode
    exact .unlessNone (ih hRejects rfl)
  | manyNone _ ih => exact .manyNone (ih hRejects hMode)
  | many _ _ ihBody ihAgain => exact .many (ihBody hRejects hMode) (ihAgain hRejects hMode)
  | againNone _ ih =>
    subst hMode
    exact .againNone (ih hRejects rfl)
  | again _ _ ihBody ihAgain =>
    subst hMode
    have hAgain := Reads.again (ihBody hRejects rfl) (ihAgain hRejects rfl)
    exact hAgain

/-- Inside an atomic rule no rejected character is taken. -/
theorem not_mem_of_rejects (hRules : ∀ rule, rejecting rule = true →
      (grammar.body rule).rejects rejecting ends = true)
    {length : Nat} {task : Task R} {text rest : List Char} {pieces : List (Piece R)}
    (h : Reads grammar length task .atomic text (some (pieces, rest)))
    (hRejects : task.expr.rejects rejecting ends = true) :
    ∀ c ∈ Piece.textOf pieces, c ∉ ends := by
  generalize hMode : Mode.atomic = mode at h
  generalize hOutcome : some (pieces, rest) = outcome at h
  induction h generalizing pieces rest with
  | literal word mode text =>
    refine not_mem_of_ofTaken (fun test hTest => ?_) hOutcome
    obtain ⟨a, ha, rfl⟩ := List.mem_map.1 hTest
    simp only [Task.expr, Expr.rejects, List.all_eq_true, decide_eq_true_eq] at hRejects
    exact fun c hc => decide_eq_false (hRejects a ha c hc)
  | word word mode text =>
    refine not_mem_of_ofTaken (fun test hTest => ?_) hOutcome
    obtain ⟨a, ha, rfl⟩ := List.mem_map.1 hTest
    simp only [Task.expr, Expr.rejects, List.all_eq_true, Bool.not_eq_true'] at hRejects
    exact hRejects a ha
  | oneOf accepts mode text =>
    refine not_mem_of_ofTaken (fun test hTest => ?_) hOutcome
    obtain rfl := List.mem_singleton.1 hTest
    simp only [Task.expr, Expr.rejects, List.all_eq_true, Bool.not_eq_true'] at hRejects
    exact hRejects
  | atStart | atEnd => cases hRejects
  | rule _ ih =>
    subst hMode
    rw [shows_atomic] at hOutcome
    exact ih (hRules _ hRejects) (Kind.inside_atomic _).symm hOutcome
  | seqFirst | seqSecond | unlessSome => cases hOutcome
  | seq _ _ ihFirst ihSecond =>
    rw [Task.expr, Expr.rejects, Bool.and_eq_true] at hRejects
    subst hMode
    cases hOutcome
    simp only [Piece.textOf_append, List.forall_mem_append]
    exact ⟨⟨ihFirst hRejects.1 rfl rfl, nofun⟩, ihSecond hRejects.2 rfl rfl⟩
  | choiceFirst _ ih =>
    rw [Task.expr, Expr.rejects, Bool.and_eq_true] at hRejects
    exact ih hRejects.1 hMode hOutcome
  | choiceSecond _ _ _ ih =>
    rw [Task.expr, Expr.rejects, Bool.and_eq_true] at hRejects
    exact ih hRejects.2 hMode hOutcome
  | optionalSome _ ih => exact ih hRejects hMode hOutcome
  | optionalNone | unlessNone | manyNone | againNone =>
    cases hOutcome
    exact nofun
  | many _ _ ihBody ihAgain =>
    cases hOutcome
    simp only [Piece.textOf_append, List.forall_mem_append]
    exact ⟨ihBody hRejects hMode rfl, ihAgain hRejects hMode rfl⟩
  | again _ _ ihBody ihAgain =>
    subst hMode
    cases hOutcome
    simp only [Piece.textOf_append, List.forall_mem_append]
    exact ⟨⟨nofun, ihBody hRejects rfl rfl⟩, ihAgain hRejects rfl rfl⟩

end Reads

end RowFilter.Grammar
