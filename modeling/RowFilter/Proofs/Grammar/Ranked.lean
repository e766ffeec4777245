import RowFilter.Proofs.Grammar.Reads

/-! Grammars whose readings end. Reading a rule may try further rules at the
same place. If these descend in some rank, and if each round of a repetition
takes a character, then the depth and the bound with which a text is read
are never reached: reading gives exactly the located outcome of `Reads`. -/

namespace RowFilter.Grammar

variable {R : Type}

namespace Expr

/-- Whether an expression takes a character whenever it succeeds, given the
rules that do. -/
def consumes (consuming : R → Bool) : Expr R → Bool
  | .literal text | .word text => !text.toList.isEmpty
  | .oneOf _ => true
  | .rule r => consuming r
  | .seq first second => first.consumes consuming || second.consumes consuming
  | .choice first second => first.consumes consuming && second.consumes consuming
  | .atStart | .atEnd | .optional _ | .many _ | .unless _ => false

/-- The rules that an expression may try before it has taken a character. -/
def leading (consuming : R → Bool) : Expr R → List R
  | .rule r => [r]
  | .seq first second =>
    first.leading consuming ++
      if first.consumes consuming then [] else second.leading consuming
  | .choice first second => first.leading consuming ++ second.leading consuming
  | .optional body | .many body | .unless body => body.leading consuming
  | .literal _ | .word _ | .oneOf _ | .atStart | .atEnd => []

/-- Whether each round of each repetition takes a character. -/
def roundsConsume (consuming : R → Bool) : Expr R → Bool
  | .seq first second | .choice first second =>
    first.roundsConsume consuming && second.roundsConsume consuming
  | .many body => body.consumes consuming && body.roundsConsume consuming
  | .optional body | .unless body => body.roundsConsume consuming
  | .literal _ | .word _ | .oneOf _ | .atStart | .atEnd | .rule _ => true

end Expr

/-- A grammar in which rules that are tried at the same place descend in rank. -/
structure Ranked (grammar : Grammar R) (rank : R → Nat) (consuming : R → Bool) : Prop where
  rank_lt (rule : R) : rank rule < grammar.rules.length
  consumes_body (rule : R) :
    consuming rule = true → (grammar.body rule).consumes consuming = true
  rank_leading_lt (rule : R) :
    ∀ other ∈ (grammar.body rule).leading consuming, rank other < rank rule
  rounds_consume (rule : R) : (grammar.body rule).roundsConsume consuming = true

/-- Reading leaves no more text than there was. -/
theorem Reads.length_le {grammar : Grammar R} {length : Nat} {task : Task R} {mode : Mode}
    {text rest : List Char} {pieces : List (Piece R)}
    (h : Reads grammar length task mode text (some (pieces, rest))) :
    rest.length ≤ text.length := by
  rw [h.text_eq, List.length_append]
  exact Nat.le_add_left ..

theorem Mode.length_behindGap_le (mode : Mode) (isBlank : Char → Bool) (text : List Char) :
    (mode.behindGap isBlank text).length ≤ text.length := by
  have h := congrArg List.length (mode.gap_append_behindGap isBlank text)
  rw [List.length_append] at h
  omega

private theorem Outcome.length_lt_of_ofTaken {tests : List (Char → Bool)}
    {text rest : List Char} {pieces : List (Piece R)} (hTests : tests ≠ [])
    (h : Outcome.ofTaken (takeAll? tests text) = some (pieces, rest)) :
    rest.length < text.length := by
  obtain ⟨taken, hTaken, rfl⟩ := ofTaken_eq_some.1 h
  obtain ⟨hText, hLength⟩ := takeAll?_eq_some hTaken
  have hPos := List.length_pos_iff.2 hTests
  rw [hText, List.length_append]
  omega

namespace Ranked

variable {grammar : Grammar R} {rank : R → Nat} {consuming : R → Bool}

/-- An expression that takes a character leaves a shorter text. -/
theorem length_lt (hRanked : Ranked grammar rank consuming) {length : Nat} {expr : Expr R}
    {mode : Mode} {text rest : List Char} {pieces : List (Piece R)}
    (h : Reads grammar length (.once expr) mode text (some (pieces, rest)))
    (hConsumes : expr.consumes consuming = true) : rest.length < text.length := by
  generalize hOutcome : (some (pieces, rest) : Outcome R) = outcome at h
  generalize hTask : Task.once expr = task at h
  induction h generalizing expr pieces rest with
  | literal | word =>
    cases hTask
    refine Outcome.length_lt_of_ofTaken ?_ hOutcome.symm
    simpa [Expr.consumes] using hConsumes
  | oneOf => exact Outcome.length_lt_of_ofTaken (List.cons_ne_nil _ _) hOutcome.symm
  | rule _ ih =>
    cases hTask
    rw [Expr.consumes] at hConsumes
    obtain ⟨parts, hParts, -⟩ := Outcome.exists_of_ofBody hOutcome.symm
    exact ih (hRanked.consumes_body _ hConsumes) hParts.symm rfl
  | @seq _ _ mode _ rest _ _ _ hFirst hSecond ihFirst ihSecond =>
    cases hTask
    cases hOutcome
    have hFirstLe := hFirst.length_le
    have hGapLe := mode.length_behindGap_le grammar.isBlank rest
    have hSecondLe := hSecond.length_le
    rw [Expr.consumes, Bool.or_eq_true] at hConsumes
    rcases hConsumes with hConsumes | hConsumes
    · have hLt := ihFirst hConsumes rfl rfl
      omega
    · have hLt := ihSecond hConsumes rfl rfl
      omega
  | choiceFirst _ ih =>
    cases hTask
    rw [Expr.consumes, Bool.and_eq_true] at hConsumes
    exact ih hConsumes.1 hOutcome rfl
  | choiceSecond _ _ _ ih =>
    cases hTask
    rw [Expr.consumes, Bool.and_eq_true] at hConsumes
    exact ih hConsumes.2 hOutcome rfl
  | seqFirst | seqSecond | unlessSome => cases hOutcome
  | atStart | atEnd | optionalSome | optionalNone | unlessNone | manyNone | many =>
    cases hTask
    cases hConsumes
  | againNone | again => cases hTask

/-- An expression that takes a character reads a text that is not empty. -/
theorem textOf_ne_nil (hRanked : Ranked grammar rank consuming) {length : Nat} {expr : Expr R}
    {mode : Mode} {text rest : List Char} {pieces : List (Piece R)}
    (h : Reads grammar length (.once expr) mode text (some (pieces, rest)))
    (hConsumes : expr.consumes consuming = true) : Piece.textOf pieces ≠ [] := by
  intro hNil
  have hLt := hRanked.length_lt h hConsumes
  rw [h.text_eq, hNil] at hLt
  exact Nat.lt_irrefl _ hLt

/-- An expression that takes a character is read where one stands. -/
theorem text_ne_nil (hRanked : Ranked grammar rank consuming) {length : Nat} {expr : Expr R}
    {mode : Mode} {text rest : List Char} {pieces : List (Piece R)}
    (h : Reads grammar length (.once expr) mode text (some (pieces, rest)))
    (hConsumes : expr.consumes consuming = true) : text ≠ [] :=
  List.ne_nil_of_length_pos (Nat.zero_lt_of_lt (hRanked.length_lt h hConsumes))

/-- What is left behind an expression is within the bound of the text, and within the next smaller
one if the expression takes a character. -/
theorem length_le_of_bound (hRanked : Ranked grammar rank consuming) {length bound restBound : Nat}
    {expr : Expr R} {mode : Mode} {text rest : List Char} {pieces : List (Piece R)}
    (h : Reads grammar length (.once expr) mode text (some (pieces, rest)))
    (hText : text.length ≤ bound)
    (hBound : bound ≤ restBound + if expr.consumes consuming = true then 1 else 0) :
    rest.length ≤ restBound := by
  split at hBound
  · next hConsumes =>
    have hLt := hRanked.length_lt h hConsumes
    omega
  · have hLe := h.length_le
    omega

end Ranked

/-- The nodes and the place behind them that an outcome means at a cursor. -/
def Outcome.locate (cursor : Cursor) (outcome : Outcome R) : Option (List (Node R) × Cursor) :=
  outcome.map fun (pieces, _) =>
    (Piece.locateAll cursor pieces, cursor.past (Piece.textOf pieces))

namespace Cursor

private theorem acceptAll?_eq (tests : List (Char → Bool)) (cursor : Cursor) :
    cursor.acceptAll? tests =
      (takeAll? tests cursor.rest).map fun (taken, _) => cursor.past taken := by
  induction tests generalizing cursor with
  | nil => rfl
  | cons p ps ih =>
    cases hRest : cursor.rest with
    | nil => simp [acceptAll?, accept?, takeAll?, hRest]
    | cons c rest =>
      cases hAccepts : p c with
      | false => simp [acceptAll?, accept?, takeAll?, hRest, hAccepts]
      | true =>
        simp only [acceptAll?, accept?, takeAll?, hRest, hAccepts, if_true, Option.bind_some, ih,
          Option.map_map, step]
        congr 1
        funext taken
        simp [step, hRest]

theorem accept?_eq (p : Char → Bool) (cursor : Cursor) :
    cursor.accept? p = cursor.acceptAll? [p] := by
  rw [acceptAll?]
  cases cursor.accept? p <;> rfl

private theorem skipFrom_eq (p : Char → Bool) (cursor : Cursor) :
    skipFrom p cursor.offset cursor.position cursor.rest =
      cursor.past (cursor.rest.takeWhile p) := by
  obtain ⟨rest, offset, position⟩ := cursor
  induction rest generalizing offset position with
  | nil => rfl
  | cons c rest ih =>
    cases h : p c with
    | false => simp [skipFrom, h]
    | true =>
      simp only [skipFrom, h, if_true, List.takeWhile_cons, past_cons, step, List.tail_cons]
      exact ih _ _

end Cursor

/-- Skipping moves over the blanks at the beginning of the text. -/
theorem Mode.skip_eq (mode : Mode) (isBlank : Char → Bool) (cursor : Cursor) :
    mode.skip isBlank cursor = cursor.past (mode.gap isBlank cursor.rest) := by
  cases h : mode.skipsBlanks with
  | false => simp [skip, gap, h]
  | true => simpa [skip, gap, h, Cursor.skip] using cursor.skipFrom_eq isBlank

/-- Cursors skip what is skipped of their texts. -/
theorem Mode.rest_skip (mode : Mode) (isBlank : Char → Bool) (cursor : Cursor) :
    (mode.skip isBlank cursor).rest = mode.behindGap isBlank cursor.rest := by
  rw [Mode.skip_eq]
  exact Cursor.rest_past (mode.gap_append_behindGap isBlank cursor.rest).symm

/-- Tests accept at a cursor what they take of its text. -/
theorem Reading.ofCursor?_result {expected : Expected R} {tests : List (Char → Bool)}
    (cursor : Cursor) :
    (Reading.ofCursor? expected (cursor.acceptAll? tests) : Reading R).result =
      (Outcome.ofTaken (takeAll? tests cursor.rest)).locate cursor := by
  rw [Cursor.acceptAll?_eq]
  cases takeAll? tests cursor.rest with
  | none => rfl
  | some taken =>
    simp [Reading.ofCursor?, Reading.success, Outcome.locate, Outcome.ofTaken]

theorem Reading.ofCursor?_expected (expected : Expected R) (cursor? : Option Cursor) :
    (Reading.ofCursor? expected cursor?).expected = expected := by
  cases cursor? <;> rfl

end RowFilter.Grammar
