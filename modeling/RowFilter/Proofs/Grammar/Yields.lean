import RowFilter.Proofs.Grammar.Stable

/-! What expressions take. A property of the text that an expression takes is
put together from properties of what its parts take, with the gap between them.
Texts are bounded in length, so that a rule may lead back to itself behind a
character. -/

namespace RowFilter.Grammar

variable {R : Type}

/-- All that an expression takes at the beginning of texts up to a length has a property. -/
def Yields (grammar : Grammar R) (bound : Nat) (expr : Expr R) (mode : Mode)
    (P : List Char → Prop) : Prop :=
  ∀ ⦃length : Nat⦄ ⦃text rest : List Char⦄ ⦃pieces : List (Piece R)⦄, text.length ≤ bound →
    Reads grammar length (.once expr) mode text (some (pieces, rest)) → P (Piece.textOf pieces)

/-- Texts with a property have another one once a gap and a third text stand behind them. -/
def Joins (grammar : Grammar R) (mode : Mode) (P Q S : List Char → Prop) : Prop :=
  ∀ first behind second, P first → Q second →
    S (first ++ mode.gap grammar.isBlank behind ++ second)

private theorem Mode.gap_nil (mode : Mode) (isBlank : Char → Bool) : mode.gap isBlank [] = [] := by
  cases h : mode.skipsBlanks <;> simp [gap, h]

namespace Yields

variable {grammar : Grammar R} {bound : Nat} {mode : Mode} {expr first second : Expr R}
  {P Q S : List Char → Prop}

theorem mono (h : Yields grammar bound expr mode P) (hImplies : ∀ text, P text → Q text) :
    Yields grammar bound expr mode Q :=
  fun _ _ _ _ hBound hReads => hImplies _ (h hBound hReads)

theorem shorter {other : Nat} (h : Yields grammar other expr mode P) (hBound : bound ≤ other) :
    Yields grammar bound expr mode P :=
  fun _ _ _ _ hText hReads => h (Nat.le_trans hText hBound) hReads

/-- An expression that takes a character takes nothing where nothing stands. -/
theorem zero {rank : R → Nat} {consuming : R → Bool} (hRanked : Ranked grammar rank consuming)
    (hConsumes : expr.consumes consuming = true) : Yields grammar 0 expr mode P :=
  fun _ _ _ _ hText hReads => absurd (List.eq_nil_of_length_eq_zero (Nat.le_zero.1 hText))
    (hRanked.text_ne_nil hReads hConsumes)

theorem literal {word : String} (h : P word.toList) :
    Yields grammar bound (.literal word) mode P := by
  intro length text rest pieces _ hReads
  obtain ⟨rfl, -⟩ := hReads.of_literal
  rwa [Piece.textOf_chars]

/-- A rule yields what its body yields. -/
theorem rule {rule : R}
    (h : Yields grammar bound (grammar.body rule) ((grammar.kind rule).inside mode) P) :
    Yields grammar bound (.rule rule) mode P := by
  intro length text rest pieces hBound hReads
  obtain ⟨parts, hParts, rfl⟩ := hReads.of_rule
  have hText := h hBound hParts
  split
  · rwa [Piece.textOf_shown]
  · exact hText

/-- Inside an atomic rule nothing is taken that its parts reject. -/
theorem atomic {rejecting : R → Bool} {rejected : List Char}
    (hRules : ∀ rule, rejecting rule = true →
      (grammar.body rule).rejects rejecting rejected = true) {rule : R}
    (hRule : rejecting rule = true) (hKind : grammar.kind rule = .atomic) :
    Yields grammar bound (.rule rule) mode (∀ c ∈ ·, c ∉ rejected) := by
  apply Yields.rule
  rw [hKind]
  intro length text rest pieces _ hReads
  exact hReads.not_mem_of_rejects hRules (hRules rule hRule)

theorem choice (hFirst : Yields grammar bound first mode P)
    (hSecond : Yields grammar bound second mode P) :
    Yields grammar bound (.choice first second) mode P := by
  intro length text rest pieces hBound hReads
  rcases hReads.of_choice with hReads | ⟨-, hReads⟩
  · exact hFirst hBound hReads
  · exact hSecond hBound hReads

/-- A sequence yields what its expressions yield, joined. -/
theorem seq {rank : R → Nat} {consuming : R → Bool} {secondBound : Nat}
    (hRanked : Ranked grammar rank consuming) (hFirst : Yields grammar bound first mode P)
    (hSecond : Yields grammar secondBound second mode Q) (hJoins : Joins grammar mode P Q S)
    (hBound : bound ≤ secondBound + if first.consumes consuming = true then 1 else 0) :
    Yields grammar bound (.seq first second) mode S := by
  intro length text rest pieces hText hReads
  obtain ⟨parts, stop, others, hFirstReads, hSecondReads, rfl⟩ := hReads.of_seq
  have hStop := hRanked.length_le_of_bound hFirstReads hText hBound
  have hGapLe := mode.length_behindGap_le grammar.isBlank stop
  have hTaken := hJoins _ stop _ (hFirst hText hFirstReads)
    (hSecond (Nat.le_trans hGapLe hStop) hSecondReads)
  rwa [Piece.textOf_append, Piece.textOf_append, Piece.textOf_chars]

private theorem again (h : Yields grammar bound expr mode P) (hNil : P [])
    (hJoins : Joins grammar mode P P P) {length : Nat} {text rest : List Char}
    {pieces : List (Piece R)} (hText : text.length ≤ bound)
    (hReads : Reads grammar length (.again expr) mode text (some (pieces, rest))) :
    P (Piece.textOf pieces) := by
  generalize hTask : Task.again expr = task at hReads
  generalize hOutcome : some (pieces, rest) = outcome at hReads
  induction hReads generalizing pieces with
  | againNone =>
    cases hTask
    cases hOutcome
    exact hNil
  | @again _ mode text _ _ parts others hBody _ _ ihAgain =>
    cases hTask
    cases hOutcome
    have hGapLe := mode.length_behindGap_le grammar.isBlank text
    have hBodyLe := hBody.length_le
    have hRound := hJoins [] text _ hNil (h (Nat.le_trans hGapLe hText) hBody)
    have hOthers := ihAgain h hJoins (by omega) rfl rfl
    have hTaken := hJoins _ [] _ hRound hOthers
    rw [mode.gap_nil, List.append_nil, List.nil_append] at hTaken
    rwa [Piece.textOf_append, Piece.textOf_append, Piece.textOf_chars]
  | _ => cases hTask

/-- A repetition yields what its rounds join to. -/
theorem many (h : Yields grammar bound expr mode P) (hNil : P [])
    (hJoins : Joins grammar mode P P P) : Yields grammar bound (.many expr) mode P := by
  intro length text rest pieces hText hReads
  generalize hOutcome : some (pieces, rest) = outcome at hReads
  cases hReads with
  | manyNone =>
    cases hOutcome
    exact hNil
  | many hFirst hAgain =>
    cases hOutcome
    have hFirstLe := hFirst.length_le
    have hOthers := again h hNil hJoins (by omega) hAgain
    have hTaken := hJoins _ [] _ (h hText hFirst) hOthers
    rw [mode.gap_nil, List.append_nil] at hTaken
    rwa [Piece.textOf_append]

end Yields

end RowFilter.Grammar
