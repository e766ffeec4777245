import RowFilter.Proofs.Grammar.Calls
import RowFilter.Proofs.Grammar.Composed

/-! The size of stacks. How many calls of some rules a stack holds is bounded
here by what the text before the innermost call pays for: a rule needs an amount,
each counted call spends one, and what is read in front of a part may earn some. -/

namespace RowFilter.Grammar

variable {R : Type}

def Call.Succeeds (grammar : Grammar R) (length : Nat) (call : Call R) : Prop :=
  ∃ success, Reads grammar length call.task call.mode call.text (some success)

def Call.applies (counted : R → Bool) (call : Call R) : Bool :=
  match call.task with
  | .once (.rule r) => counted r
  | _ => false

theorem Call.exists_rule_of_applies {counted : R → Bool} (call : Call R)
    (h : call.applies counted = true) : ∃ rule, call.task = .once (.rule rule) := by
  rw [Call.applies] at h
  split at h
  · next rule hTask => exact ⟨rule, hTask⟩
  · cases h

/-- A branch of the derivation of what is read for a first call: a stack whose calls all succeed. -/
structure IsBranch (grammar : Grammar R) (length : Nat) (root : Call R) (stack : List (Call R)) :
    Prop where
  isStack : IsStack grammar length root stack
  succeeds : ∀ call ∈ stack, call.Succeeds grammar length

namespace IsBranch

variable {grammar : Grammar R} {length : Nat} {root outer inner : Call R} {calls : List (Call R)}
  {first second : Expr R} {mode : Mode} {text rest : List Char} {pieces : List (Piece R)}

private theorem call (h : IsBranch grammar length root (outer :: calls))
    (hInner : Inner grammar length outer inner) (hSucceeds : inner.Succeeds grammar length) :
    IsBranch grammar length root (inner :: outer :: calls) :=
  ⟨.call h.isStack hInner, List.forall_mem_cons.2 ⟨hSucceeds, h.succeeds⟩⟩

/-- A branch goes on from a rule to its body. -/
theorem rule {rule : R}
    (h : IsBranch grammar length root (⟨.once (.rule rule), mode, text⟩ :: calls)) :
    IsBranch grammar length root
      (⟨.once (grammar.body rule), (grammar.kind rule).inside mode, text⟩ ::
        ⟨.once (.rule rule), mode, text⟩ :: calls) := by
  obtain ⟨_, hReads⟩ := h.succeeds _ List.mem_cons_self
  obtain ⟨parts, hParts, -⟩ := Reads.of_rule hReads
  exact h.call (.rule rule mode text) ⟨_, hParts⟩

theorem seqFirst
    (h : IsBranch grammar length root (⟨.once (.seq first second), mode, text⟩ :: calls)) :
    IsBranch grammar length root (⟨.once first, mode, text⟩ ::
      ⟨.once (.seq first second), mode, text⟩ :: calls) := by
  obtain ⟨_, hReads⟩ := h.succeeds _ List.mem_cons_self
  obtain ⟨parts, _, _, hFirst, -, -⟩ := Reads.of_seq hReads
  exact h.call (.seqFirst first second mode text) ⟨_, hFirst⟩

theorem seqSecond {stop : List Char}
    (h : IsBranch grammar length root (⟨.once (.seq first second), mode, text⟩ :: calls))
    (hFirst : Reads grammar length (.once first) mode text (some (pieces, rest)))
    (hStop : mode.behindGap grammar.isBlank rest = stop) :
    IsBranch grammar length root (⟨.once second, mode, stop⟩ ::
      ⟨.once (.seq first second), mode, text⟩ :: calls) := by
  subst hStop
  obtain ⟨_, hReads⟩ := h.succeeds _ List.mem_cons_self
  obtain ⟨_, _, _, hOther, hSecond, -⟩ := Reads.of_seq hReads
  obtain ⟨-, rfl⟩ := Prod.mk.inj (Option.some.inj (hFirst.unique hOther))
  exact h.call (.seqSecond second hFirst) ⟨_, hSecond⟩

theorem choiceFirst
    (h : IsBranch grammar length root (⟨.once (.choice first second), mode, text⟩ :: calls))
    (hFirst : Reads grammar length (.once first) mode text (some (pieces, rest))) :
    IsBranch grammar length root (⟨.once first, mode, text⟩ ::
      ⟨.once (.choice first second), mode, text⟩ :: calls) :=
  h.call (.choiceFirst first second mode text) ⟨_, hFirst⟩

theorem choiceSecond
    (h : IsBranch grammar length root (⟨.once (.choice first second), mode, text⟩ :: calls))
    (hFirst : Reads grammar length (.once first) mode text none) :
    IsBranch grammar length root (⟨.once second, mode, text⟩ ::
      ⟨.once (.choice first second), mode, text⟩ :: calls) := by
  obtain ⟨_, hReads⟩ := h.succeeds _ List.mem_cons_self
  rcases Reads.of_choice hReads with hOther | ⟨-, hSecond⟩
  · cases hFirst.unique hOther
  · exact h.call (.choiceSecond second hFirst) ⟨_, hSecond⟩

end IsBranch

section Budget

variable (grammar : Grammar R) (length : Nat) (quiet : R → Bool) (need : R → Nat)
  (Pays : List Char → Nat → Prop)

/-- Behind what an expression reads, more is paid for than before it. -/
def Earns (expr : Expr R) (gain : Nat) : Prop :=
  ∀ ⦃before text rest : List Char⦄ ⦃amount : Nat⦄ ⦃pieces : List (Piece R)⦄, Pays before amount →
    Reads grammar length (.once expr) .initial text (some (pieces, rest)) →
    Pays (before ++ Piece.textOf pieces) (amount + gain)

/-- An amount is enough for the calls of an expression. Quiet rules need nothing. -/
inductive Affords : Expr R → Nat → Prop where
  | quiet {expr : Expr R} {amount : Nat} (h : expr.within quiet = true) : Affords expr amount
  | rule {rule : R} {amount : Nat} (hRule : quiet rule = false) (hNeed : need rule ≤ amount) :
      Affords (.rule rule) amount
  | seq {first second : Expr R} {amount gain : Nat} (hFirst : Affords first amount)
      (hEarns : Earns grammar length Pays first gain) (hSecond : Affords second (amount + gain)) :
      Affords (.seq first second) amount
  | choice {first second : Expr R} {amount : Nat} (hFirst : Affords first amount)
      (hSecond : Affords second amount) : Affords (.choice first second) amount
  | optional {body : Expr R} {amount : Nat} (hBody : Affords body amount) :
      Affords (.optional body) amount
  | many {body : Expr R} {amount : Nat} (hBody : Affords body amount)
      (hEarns : Earns grammar length Pays body 0) : Affords (.many body) amount

def cost (counted : R → Bool) (rule : R) : Nat := if counted rule then 1 else 0

/-- A grammar in which each rule can spend one for each counted call out of what it needs. -/
structure Budget (counted : R → Bool) : Prop where
  gap {before : List Char} {amount : Nat} (text : List Char) :
    Pays before amount → Pays (before ++ Mode.initial.gap grammar.isBlank text) amount
  not_counted (rule : R) : quiet rule = true → counted rule = false
  quiet_body (rule : R) : quiet rule = true → (grammar.body rule).within quiet = true
  inside_eq (rule : R) : quiet rule = false → (grammar.kind rule).inside .initial = .initial
  cost_le (rule : R) : quiet rule = false → cost counted rule ≤ need rule
  affords_body (rule : R) : quiet rule = false →
    Affords grammar length quiet need Pays (grammar.body rule) (need rule - cost counted rule)

end Budget

variable {grammar : Grammar R} {length : Nat} {quiet counted : R → Bool} {need : R → Nat}
  {Pays : List Char → Nat → Prop}

/-- Where nothing is lost, an amount that is enough for each rule is enough for an expression. -/
theorem Affords.of_composes {amount : Nat} (hEarns : ∀ expr, Earns grammar length Pays expr 0)
    (hNeed : ∀ rule, quiet rule = false → need rule ≤ amount) {expr : Expr R}
    (hExpr : expr.composes (fun _ => true) = true) :
    Affords grammar length quiet need Pays expr amount := by
  induction expr with
  | atStart | atEnd => exact .quiet rfl
  | rule rule =>
    cases hRule : quiet rule with
    | true => exact .quiet hRule
    | false => exact .rule hRule (hNeed rule hRule)
  | seq first second ihFirst ihSecond =>
    obtain ⟨hFirst, hSecond⟩ := Bool.and_eq_true_iff.1 hExpr
    exact .seq (ihFirst hFirst) (hEarns first) (ihSecond hSecond)
  | choice first second ihFirst ihSecond =>
    obtain ⟨hFirst, hSecond⟩ := Bool.and_eq_true_iff.1 hExpr
    exact .choice (ihFirst hFirst) (ihSecond hSecond)
  | optional body ih => exact .optional (ih hExpr)
  | many body ih => exact .many (ih hExpr) (hEarns body)
  | _ => cases hExpr

/-- Expressions one behind the other earn the sum of what they earn. -/
theorem Earns.seq {first second : Expr R} {gain other : Nat}
    (hGap : ∀ {before : List Char} {amount : Nat} (text : List Char),
      Pays before amount → Pays (before ++ Mode.initial.gap grammar.isBlank text) amount)
    (hFirst : Earns grammar length Pays first gain)
    (hSecond : Earns grammar length Pays second other) :
    Earns grammar length Pays (.seq first second) (gain + other) := by
  intro before text rest amount pieces hPays hReads
  obtain ⟨parts, stop, others, hFirstReads, hSecondReads, rfl⟩ := hReads.of_seq
  have hMiddle := hGap stop (hFirst hPays hFirstReads)
  have hAll := hSecond hMiddle hSecondReads
  simpa [Nat.add_assoc] using hAll

/-- What stands before a call pays for what the calls below it have spent and for what the call
itself needs, unless it needs nothing. -/
private def Paid (grammar : Grammar R) (length : Nat) (quiet : R → Bool) (need : R → Nat)
    (Pays : List Char → Nat → Prop) (whole : List Char) (bound : Nat) (call : Call R)
    (spent : Nat) : Prop :=
  (call.task.asExpr.within quiet = true ∧ spent ≤ bound) ∨
    call.mode = .initial ∧ ∃ before amount left, whole = before ++ call.text ∧
      Pays before amount ∧ spent + left ≤ amount ∧
      Affords grammar length quiet need Pays call.task.asExpr left

/-- What a call itself spends. -/
private def Call.spends (counted : R → Bool) (call : Call R) : Nat :=
  if call.applies counted then 1 else 0

variable {outer inner : Call R} {whole : List Char} {bound spent : Nat}

private theorem Paid.spent_le {call : Call R}
    (hBound : ∀ before rest amount, whole = before ++ rest → Pays before amount → amount ≤ bound)
    (h : Paid grammar length quiet need Pays whole bound call spent) : spent ≤ bound := by
  rcases h with ⟨-, hSpent⟩ | ⟨-, before, amount, left, hText, hPays, hLe, -⟩
  · exact hSpent
  · have hAmount := hBound _ _ _ hText hPays
    omega

private theorem Inner.within (hBudget : Budget grammar length quiet need Pays counted)
    (h : Inner grammar length outer inner) (hOuter : outer.task.asExpr.within quiet = true) :
    inner.task.asExpr.within quiet = true ∧ outer.applies counted = false := by
  cases h with
  | rule rule => exact ⟨hBudget.quiet_body rule hOuter, hBudget.not_counted rule hOuter⟩
  | seqFirst | choiceFirst => exact ⟨(Bool.and_eq_true_iff.1 hOuter).1, rfl⟩
  | seqSecond | choiceSecond => exact ⟨(Bool.and_eq_true_iff.1 hOuter).2, rfl⟩
  | optionalBody | unlessBody | manyFirst | manyAgain | againFirst | againMore =>
    exact ⟨hOuter, rfl⟩

private theorem paid_inner (hBudget : Budget grammar length quiet need Pays counted)
    (hBound : ∀ before rest amount, whole = before ++ rest → Pays before amount → amount ≤ bound)
    (h : Inner grammar length outer inner)
    (hOuter : Paid grammar length quiet need Pays whole bound outer spent) :
    Paid grammar length quiet need Pays whole bound inner (spent + outer.spends counted) := by
  have hSpent := Paid.spent_le hBound hOuter
  have hQuiet (hWithin : outer.task.asExpr.within quiet = true) :
      Paid grammar length quiet need Pays whole bound inner (spent + outer.spends counted) := by
    obtain ⟨hInner, hApplies⟩ := h.within hBudget hWithin
    rw [Call.spends, hApplies]
    exact .inl ⟨hInner, hSpent⟩
  rcases hOuter with ⟨hWithin, -⟩ | ⟨hMode, before, amount, left, hText, hPays, hLe, hAffords⟩
  · exact hQuiet hWithin
  obtain ⟨task, mode, text⟩ := outer
  obtain rfl : mode = .initial := hMode
  dsimp only at hText hAffords hQuiet
  cases h with
  | rule rule =>
    cases hAffords with
    | quiet hWithin => exact hQuiet hWithin
    | rule hRule hNeed =>
      have hCost := hBudget.cost_le rule hRule
      refine .inr ⟨hBudget.inside_eq rule hRule, before, amount, _, hText, hPays, ?_,
        hBudget.affords_body rule hRule⟩
      change spent + cost counted rule + (need rule - cost counted rule) ≤ amount
      omega
  | seqFirst =>
    cases hAffords with
    | quiet hWithin => exact hQuiet hWithin
    | seq hFirst => exact .inr ⟨rfl, before, amount, left, hText, hPays, hLe, hFirst⟩
  | @seqSecond _ _ _ _ rest pieces hReads =>
    cases hAffords with
    | quiet hWithin => exact hQuiet hWithin
    | @seq _ _ _ gain _ hEarns hSecond =>
      refine .inr ⟨rfl, _, amount + gain, left + gain, ?_,
        hBudget.gap rest (hEarns hPays hReads), ?_, hSecond⟩
      · rw [hText, hReads.text_eq, List.append_assoc, List.append_assoc,
          Mode.gap_append_behindGap]
      · change spent + 0 + (left + gain) ≤ amount + gain
        omega
  | choiceFirst =>
    cases hAffords with
    | quiet hWithin => exact hQuiet hWithin
    | choice hFirst => exact .inr ⟨rfl, before, amount, left, hText, hPays, hLe, hFirst⟩
  | choiceSecond =>
    cases hAffords with
    | quiet hWithin => exact hQuiet hWithin
    | choice _ hSecond => exact .inr ⟨rfl, before, amount, left, hText, hPays, hLe, hSecond⟩
  | optionalBody =>
    cases hAffords with
    | quiet hWithin => exact hQuiet hWithin
    | optional hBody => exact .inr ⟨rfl, before, amount, left, hText, hPays, hLe, hBody⟩
  | unlessBody =>
    cases hAffords with
    | quiet hWithin => exact hQuiet hWithin
  | manyFirst =>
    cases hAffords with
    | quiet hWithin => exact hQuiet hWithin
    | many hBody => exact .inr ⟨rfl, before, amount, left, hText, hPays, hLe, hBody⟩
  | @manyAgain _ _ _ rest pieces hReads =>
    cases hAffords with
    | quiet hWithin => exact hQuiet hWithin
    | many hBody hEarns =>
      refine .inr ⟨rfl, _, amount, left, ?_, hEarns hPays hReads, hLe, .many hBody hEarns⟩
      rw [hText, hReads.text_eq, List.append_assoc]
  | againFirst =>
    cases hAffords with
    | quiet hWithin => exact hQuiet hWithin
    | many hBody =>
      refine .inr ⟨rfl, _, amount, left, ?_, hBudget.gap text hPays, hLe, hBody⟩
      rw [hText, List.append_assoc, Mode.gap_append_behindGap]
  | @againMore _ _ _ rest pieces hReads =>
    cases hAffords with
    | quiet hWithin => exact hQuiet hWithin
    | many hBody hEarns =>
      refine .inr ⟨rfl, _, amount, left, ?_, hEarns (hBudget.gap text hPays) hReads, hLe,
        .many hBody hEarns⟩
      rw [List.append_assoc, List.append_assoc, ← hReads.text_eq, Mode.gap_append_behindGap]
      exact hText

private theorem IsStack.paid (hBudget : Budget grammar length quiet need Pays counted)
    (hBound : ∀ before rest amount, whole = before ++ rest → Pays before amount → amount ≤ bound)
    {root call : Call R} {calls : List (Call R)}
    (hRoot : Paid grammar length quiet need Pays whole bound root 0)
    (h : IsStack grammar length root (call :: calls)) :
    Paid grammar length quiet need Pays whole bound call (calls.countP (Call.applies counted)) := by
  refine h.passes hRoot fun hPaid hInner => ?_
  have hNext := paid_inner hBudget hBound hInner hPaid
  rwa [List.countP_cons]

/-- What the text pays for bounds the number of counted calls in a stack. -/
theorem IsStack.countP_le (hBudget : Budget grammar length quiet need Pays counted)
    (hBound : ∀ before rest amount, whole = before ++ rest → Pays before amount → amount ≤ bound)
    {rule : R} (hRule : quiet rule = false) (hPays : Pays [] (need rule)) {stack : List (Call R)}
    (h : IsStack grammar length ⟨.once (.rule rule), .initial, whole⟩ stack) :
    stack.countP (Call.applies counted) ≤ bound := by
  have hRoot : Paid grammar length quiet need Pays whole bound
      ⟨.once (.rule rule), .initial, whole⟩ 0 :=
    .inr ⟨rfl, [], need rule, need rule, rfl, hPays, Nat.le_of_eq (Nat.zero_add _),
      .rule hRule (Nat.le_refl _)⟩
  obtain ⟨call, calls, rfl⟩ : ∃ call calls, stack = call :: calls := by
    cases h with
    | root => exact ⟨_, _, rfl⟩
    | call => exact ⟨_, _, rfl⟩
  have hPaid := h.paid hBudget hBound hRoot
  rw [List.countP_cons]
  cases hApplies : call.applies counted with
  | false => exact hPaid.spent_le hBound
  | true =>
    -- The body of the rule is called next, so what the rule spends is paid for.
    obtain ⟨inside, hTask⟩ := call.exists_rule_of_applies hApplies
    obtain ⟨task, mode, text⟩ := call
    obtain rfl : task = .once (.rule inside) := hTask
    have hBody := paid_inner hBudget hBound (.rule inside mode text) hPaid
    rw [Call.spends, hApplies] at hBody
    exact hBody.spent_le hBound

end RowFilter.Grammar
