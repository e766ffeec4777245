import RowFilter.Proofs.Grammar.Ranked

/-! Calls. Reading an expression calls for reading its parts at places of the
text, and the calls that are open at the same time form a stack. A rule that is
expected where reading failed was called for there, on such a stack, and failed. -/

namespace RowFilter.Grammar

open Text

variable {R : Type}

/-- A task that is to be read in a mode at the beginning of a text. -/
structure Call (R : Type) where
  task : Task R
  mode : Mode
  text : List Char

/-- The calls that are made for a call, whatever comes of them. -/
inductive Inner (grammar : Grammar R) (length : Nat) : Call R → Call R → Prop where
  | rule (rule : R) (mode : Mode) (text : List Char) :
      Inner grammar length ⟨.once (.rule rule), mode, text⟩
        ⟨.once (grammar.body rule), (grammar.kind rule).inside mode, text⟩
  | seqFirst (first second : Expr R) (mode : Mode) (text : List Char) :
      Inner grammar length ⟨.once (.seq first second), mode, text⟩ ⟨.once first, mode, text⟩
  | seqSecond {first : Expr R} (second : Expr R) {mode : Mode} {text rest : List Char}
      {pieces : List (Piece R)}
      (hFirst : Reads grammar length (.once first) mode text (some (pieces, rest))) :
      Inner grammar length ⟨.once (.seq first second), mode, text⟩
        ⟨.once second, mode, mode.behindGap grammar.isBlank rest⟩
  | choiceFirst (first second : Expr R) (mode : Mode) (text : List Char) :
      Inner grammar length ⟨.once (.choice first second), mode, text⟩ ⟨.once first, mode, text⟩
  | choiceSecond {first : Expr R} (second : Expr R) {mode : Mode} {text : List Char}
      (hFirst : Reads grammar length (.once first) mode text none) :
      Inner grammar length ⟨.once (.choice first second), mode, text⟩ ⟨.once second, mode, text⟩
  | optionalBody (body : Expr R) (mode : Mode) (text : List Char) :
      Inner grammar length ⟨.once (.optional body), mode, text⟩ ⟨.once body, mode, text⟩
  | unlessBody (body : Expr R) (mode : Mode) (text : List Char) :
      Inner grammar length ⟨.once (.unless body), mode, text⟩
        ⟨.once body, { mode with records := false }, text⟩
  | manyFirst (body : Expr R) (mode : Mode) (text : List Char) :
      Inner grammar length ⟨.once (.many body), mode, text⟩ ⟨.once body, mode, text⟩
  | manyAgain {body : Expr R} {mode : Mode} {text rest : List Char} {pieces : List (Piece R)}
      (hBody : Reads grammar length (.once body) mode text (some (pieces, rest))) :
      Inner grammar length ⟨.once (.many body), mode, text⟩ ⟨.again body, mode, rest⟩
  | againFirst (body : Expr R) (mode : Mode) (text : List Char) :
      Inner grammar length ⟨.again body, mode, text⟩
        ⟨.once body, mode, mode.behindGap grammar.isBlank text⟩
  | againMore {body : Expr R} {mode : Mode} {text rest : List Char} {pieces : List (Piece R)}
      (hBody : Reads grammar length (.once body) mode (mode.behindGap grammar.isBlank text)
        (some (pieces, rest))) :
      Inner grammar length ⟨.again body, mode, text⟩ ⟨.again body, mode, rest⟩

/-- The calls that are open at the same time for a first call, the innermost one in front. -/
inductive IsStack (grammar : Grammar R) (length : Nat) (root : Call R) : List (Call R) → Prop where
  | root : IsStack grammar length root [root]
  | call {outer inner : Call R} {calls : List (Call R)}
      (hStack : IsStack grammar length root (outer :: calls))
      (hInner : Inner grammar length outer inner) :
      IsStack grammar length root (inner :: outer :: calls)

/-- What holds of the first call, and passes from a call with those around it to each call within it,
holds of each call of a stack. -/
@[elab_as_elim]
theorem IsStack.passes {grammar : Grammar R} {length : Nat} {root : Call R}
    {motive : Call R → List (Call R) → Prop} {call : Call R} {calls : List (Call R)}
    (h : IsStack grammar length root (call :: calls)) (hRoot : motive root [])
    (hCall : ∀ {outer inner : Call R} {calls : List (Call R)}, motive outer calls →
      Inner grammar length outer inner → motive inner (outer :: calls)) :
    motive call calls := by
  generalize hStack : call :: calls = stack at h
  induction h generalizing call calls with
  | root =>
    cases hStack
    exact hRoot
  | call _ hInner ih =>
    cases hStack
    exact hCall (ih rfl) hInner

/-- Whether an expression uses rules of a kind only. -/
def Expr.within (known : R → Bool) : Expr R → Bool
  | .rule r => known r
  | .seq first second | .choice first second => first.within known && second.within known
  | .optional body | .many body | .unless body => body.within known
  | .literal _ | .word _ | .oneOf _ | .atStart | .atEnd => true

/-- The expression of a task. Further rounds are rounds like the first ones. -/
def Task.asExpr : Task R → Expr R
  | once expr => expr
  | again body => .many body

/-- No failure of a rule in a call is noted, or only rules of some kind are used there. -/
def Call.IsQuiet (quiet : R → Bool) (call : Call R) : Prop :=
  call.mode.records = false ∨ call.task.asExpr.within quiet = true

/-- A rule was called for where a text is left, in a mode in which failures are noted, and
failed. -/
def IsNoted (grammar : Grammar R) (length : Nat) (root : Call R) (rule : R) (text : List Char) :
    Prop :=
  ∃ mode calls, grammar.shows rule mode = true ∧
    IsStack grammar length root (⟨.once (.rule rule), mode, text⟩ :: calls) ∧
    Reads grammar length (.once (.rule rule)) mode text none

/-- Each rule that is expected failed at the place where it is expected. Behind the beginning of
the text some rule is. -/
structure Accounted (grammar : Grammar R) (text : List Char) (root : Call R)
    (expected : Expected R) : Prop where
  isNoted : ∀ rule ∈ expected.rules, ∃ before rest, text = before ++ rest ∧
    expected.offset = byteLength before ∧ IsNoted grammar text.length root rule rest
  ne_nil : expected.offset ≠ 0 → expected.rules ≠ []

/-- What is expected behind a call is accounted for if what was expected before it is. -/
def Accounts (grammar : Grammar R) (text : List Char) (call : Call R)
    (expected later : Expected R) : Prop :=
  ∀ root calls, IsStack grammar text.length root (call :: calls) →
    Accounted grammar text root expected → Accounted grammar text root later

variable {grammar : Grammar R} {text : List Char} {outer inner call : Call R}
  {expected later last : Expected R}

/-- Some rule is expected once one has been noted. -/
theorem Expected.note_ne_nil (h : expected.offset ≠ 0 → expected.rules ≠ []) (rule : R)
    (offset before : Nat) : (expected.note rule offset before).rules ≠ [] := by
  rw [note]
  split
  · next hCount =>
    intro hNil
    rw [countAt, hNil, List.length_nil, ite_self] at hCount
    cases hCount
  split
  · next hLt => exact h (Nat.ne_of_gt (Nat.lt_of_le_of_lt (Nat.zero_le _) hLt))
  split
  · exact List.append_ne_nil_of_right_ne_nil _ (List.cons_ne_nil _ _)
  · exact List.cons_ne_nil _ _

/-- A rule that failed where the text begins does not move the place of what is expected. -/
theorem Expected.offset_note_zero (expected : Expected R) (rule : R) (before : Nat) :
    (expected.note rule 0 before).offset = expected.offset := by
  rw [note]
  split
  · rfl
  split
  · rfl
  split
  · next hZero => exact hZero
  · next hLt hNe => omega

theorem Accounted.empty (root : Call R) : Accounted grammar text root .empty :=
  ⟨nofun, fun h => absurd rfl h⟩

/-- A rule that failed may be noted where it failed. -/
theorem Accounted.note {root : Call R} {rule : R} {cursor : Cursor}
    (h : Accounted grammar text root expected) (hStands : cursor.StandsIn text)
    (hNoted : IsNoted grammar text.length root rule cursor.rest) (before : Nat) :
    Accounted grammar text root (expected.note rule cursor.offset before) := by
  obtain ⟨passed, hText, hOffset, -⟩ := hStands.exists_before
  refine ⟨?_, fun _ => Expected.note_ne_nil h.ne_nil rule cursor.offset before⟩
  rw [Expected.note]
  split
  · exact h.isNoted
  split
  · exact h.isNoted
  split
  · next hSame =>
    refine List.forall_mem_append.2 ⟨fun other hOther => ?_, List.forall_mem_singleton.2 ?_⟩
    · rw [hSame]
      exact h.isNoted other (List.mem_of_mem_take hOther)
    · exact ⟨passed, cursor.rest, hText, hOffset, hNoted⟩
  · exact List.forall_mem_singleton.2 ⟨passed, cursor.rest, hText, hOffset, hNoted⟩

namespace Accounts

/-- Nothing is expected in addition. -/
theorem of_eq (h : later = expected) : Accounts grammar text call expected later := by
  subst h
  exact fun _ _ _ hExpected => hExpected

theorem trans (hFirst : Accounts grammar text call expected later)
    (hSecond : Accounts grammar text call later last) :
    Accounts grammar text call expected last :=
  fun root calls hStack h => hSecond root calls hStack (hFirst root calls hStack h)

/-- What an inner call accounts for is accounted for by the outer one. -/
theorem of_inner (h : Accounts grammar text inner expected later)
    (hInner : Inner grammar text.length outer inner) :
    Accounts grammar text outer expected later :=
  fun root calls hStack => h root (outer :: calls) (.call hStack hInner)

end Accounts

/-- The calls for a quiet one are quiet if what the rules of the kind read is not recorded. -/
theorem Inner.isQuiet {length : Nat} {quiet : R → Bool}
    (hQuiet : ∀ rule, quiet rule = true → grammar.kind rule = .atomic)
    (h : Inner grammar length outer inner) (hOuter : outer.IsQuiet quiet) :
    inner.IsQuiet quiet := by
  have hInside (kind : Kind) {mode : Mode} (hMode : mode.records = false) :
      (kind.inside mode).records = false := by
    cases kind <;> first | exact hMode | rfl
  rcases hOuter with hMode | hWithin
  · left
    cases h with
    | rule rule => exact hInside (grammar.kind rule) hMode
    | unlessBody => rfl
    | _ => exact hMode
  · cases h with
    | rule rule =>
      left
      rw [hQuiet rule hWithin]
      rfl
    | seqFirst | choiceFirst => exact .inr (Bool.and_eq_true_iff.1 hWithin).1
    | seqSecond | choiceSecond => exact .inr (Bool.and_eq_true_iff.1 hWithin).2
    | optionalBody | unlessBody | manyFirst | manyAgain | againFirst | againMore =>
      exact .inr hWithin

end RowFilter.Grammar
