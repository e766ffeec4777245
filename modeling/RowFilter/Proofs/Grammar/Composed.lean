import RowFilter.Proofs.Grammar.Stable

/-! Properties of matches that are kept by putting matches together. A grammar
is often made of rules that read characters and of rules that only put others
together. What holds of the matches of the former and survives a gap, a
neighbour and an enclosing match holds of the matches of the latter. -/

namespace RowFilter.Grammar

variable {R : Type}

/-- Whether an expression puts matches of some rules together and reads no character itself. -/
def Expr.composes (known : R → Bool) : Expr R → Bool
  | .rule r => known r
  | .seq first second => first.composes known && second.composes known
  | .choice first second => first.composes known && second.composes known
  | .optional body => body.composes known
  | .many body => body.composes known
  | .atStart | .atEnd => true
  | .literal _ | .word _ | .oneOf _ | .unless _ => false

def Task.composes (known : R → Bool) : Task R → Bool
  | once expr => expr.composes known
  | again expr => expr.composes known

/-- A property of the matches between two cursors that adds up and that gaps do not affect. -/
structure AddsUp (isBlank : Char → Bool) (P : Cursor → List (Node R) → Cursor → Prop) :
    Prop where
  nil : ∀ start, P start [] start
  gap : ∀ start, P start [] (Mode.initial.skip isBlank start)
  append : ∀ {start middle stop nodes others}, P start nodes middle → P middle others stop →
    P start (nodes ++ others) stop

/-- Why the matches of a rule have a property. -/
inductive Keeps (grammar : Grammar R) (length : Nat) (known : R → Bool)
    (P : Cursor → List (Node R) → Cursor → Prop) (rule : R) : Prop where
  /-- All its matches have it. -/
  | leaf (h : ∀ {start nodes stop},
      Matches grammar length (.once (.rule rule)) .initial start nodes stop → P start nodes stop)
  /-- It is kept by the match around other matches. -/
  | composed (hInside : (grammar.kind rule).inside .initial = .initial)
      (hBody : (grammar.body rule).composes known = true)
      (hShown : ∀ {start parts stop},
        P start parts stop → P start [.node rule start stop parts] stop)

variable {grammar : Grammar R} {length : Nat} {known : R → Bool}
  {P : Cursor → List (Node R) → Cursor → Prop}

private theorem Reads.of_keeps (hP : AddsUp grammar.isBlank P)
    (hKeeps : ∀ rule, known rule = true → Keeps grammar length known P rule)
    {task : Task R} {mode : Mode} {text rest : List Char} {outcome : Outcome R}
    {pieces : List (Piece R)} {start : Cursor}
    (h : Reads grammar length task mode text outcome) (hMode : mode = .initial)
    (hTask : task.composes known = true) (hOutcome : outcome = some (pieces, rest))
    (hStart : start.rest = text) :
    P start (Piece.locateAll start pieces) (start.past (Piece.textOf pieces)) := by
  -- The induction is on the reading, so a repetition and a rule within itself are no special
  -- cases.
  induction h generalizing pieces rest start with
  | literal | word | oneOf => cases hTask
  | atStart | atEnd =>
    split at hOutcome <;> cases hOutcome
    exact hP.nil start
  | @rule rule mode text outcome hBody ih =>
    subst hMode hStart
    rcases hKeeps rule hTask with hLeaf | ⟨hInside, hComposes, hShown⟩
    · have hRule := Reads.rule hBody
      rw [hOutcome] at hRule
      refine hLeaf ⟨pieces, ?_, rfl, rfl⟩
      rwa [Cursor.rest_past hRule.text_eq]
    · cases hShows : grammar.shows rule .initial with
      | false =>
        rw [Outcome.ofBody, hShows] at hOutcome
        exact ih hInside hComposes hOutcome rfl
      | true =>
        rw [Outcome.ofBody, hShows, if_pos rfl] at hOutcome
        obtain ⟨⟨parts, stop⟩, rfl, hEq⟩ := Option.map_eq_some_iff.1 hOutcome
        cases hEq
        rw [Piece.locateAll_shown, Piece.textOf_shown]
        exact hShown (ih hInside hComposes rfl rfl)
  | seqFirst | seqSecond | unlessSome => cases hOutcome
  | @seq first second mode text rest stop parts others hFirst hSecond ihFirst ihSecond =>
    cases hOutcome
    subst hMode hStart
    obtain ⟨hComposesFirst, hComposesSecond⟩ := Bool.and_eq_true_iff.1 hTask
    have hMiddle : (start.past (Piece.textOf parts)).rest = rest := Cursor.rest_past hFirst.text_eq
    have hSkip := Mode.skip_eq .initial grammar.isBlank (start.past (Piece.textOf parts))
    rw [hMiddle] at hSkip
    have hSkipRest : (Mode.initial.skip grammar.isBlank (start.past (Piece.textOf parts))).rest =
        Mode.initial.behindGap grammar.isBlank rest := by rw [Mode.rest_skip, hMiddle]
    have hAll := hP.append (hP.append (ihFirst rfl hComposesFirst rfl rfl) (hP.gap _))
      (ihSecond rfl hComposesSecond rfl hSkipRest)
    rw [hSkip] at hAll
    simpa [Cursor.past_append] using hAll
  | choiceFirst _ ih =>
    exact ih hMode (Bool.and_eq_true_iff.1 hTask).1 hOutcome hStart
  | choiceSecond _ _ _ ih =>
    exact ih hMode (Bool.and_eq_true_iff.1 hTask).2 hOutcome hStart
  | optionalSome _ ih => exact ih hMode hTask hOutcome hStart
  | unlessNone => cases hTask
  | optionalNone | manyNone | againNone =>
    cases hOutcome
    exact hP.nil start
  | @many body mode text rest stop parts others hBody _ ihBody ihAgain =>
    cases hOutcome
    subst hStart
    have hMiddle : (start.past (Piece.textOf parts)).rest = rest := Cursor.rest_past hBody.text_eq
    have hAll := hP.append (ihBody hMode hTask rfl rfl) (ihAgain hMode hTask rfl hMiddle)
    simpa [Cursor.past_append] using hAll
  | @again body mode text rest stop parts others hBody _ ihBody ihAgain =>
    cases hOutcome
    subst hMode hStart
    have hSkip := Mode.skip_eq .initial grammar.isBlank start
    have hSkipRest := Mode.rest_skip .initial grammar.isBlank start
    have hMiddle : ((Mode.initial.skip grammar.isBlank start).past (Piece.textOf parts)).rest =
        rest := Cursor.rest_past (hSkipRest.trans hBody.text_eq)
    have hAll := hP.append (hP.gap start) (hP.append (ihBody rfl hTask rfl hSkipRest)
      (ihAgain rfl hTask rfl hMiddle))
    rw [hSkip] at hAll
    simpa [Cursor.past_append] using hAll

/-- All matches of expressions that put rules together have the property of their matches. -/
theorem Matches.of_keeps (hP : AddsUp grammar.isBlank P)
    (hKeeps : ∀ rule, known rule = true → Keeps grammar length known P rule)
    {expr : Expr R} {start stop : Cursor} {nodes : List (Node R)}
    (h : Matches grammar length (.once expr) .initial start nodes stop)
    (hExpr : expr.composes known = true) : P start nodes stop := by
  obtain ⟨pieces, hReads, rfl, rfl⟩ := h
  exact hReads.of_keeps hP hKeeps rfl hExpr rfl rfl

section Leaves

variable {mode : Mode} {start stop : Cursor} {nodes : List (Node R)} {rule : R}

/-- The match of a text that follows a cursor spells the text. -/
theorem Node.text_of_past {taken rest : List Char} {parts : List (Node R)}
    (hRest : start.rest = taken ++ rest) :
    (Node.node rule start (start.past taken) parts).text = String.ofList taken :=
  congrArg String.ofList (Cursor.textTo_past hRest)

/-- An atomic rule shows one match of what its body takes. -/
theorem Matches.of_atomic (h : Matches grammar length (.once (.rule rule)) mode start nodes stop)
    (hKind : grammar.kind rule = .atomic) (hRecords : mode.records = true) :
    ∃ taken, Takes grammar length (.rule rule) start.rest taken stop.rest ∧
      start.rest = taken ++ stop.rest ∧ stop = start.past taken ∧
      nodes = [.node rule start stop []] := by
  obtain ⟨pieces, hReads, rfl, rfl⟩ := h
  obtain ⟨parts, hBody, rfl⟩ := hReads.of_rule
  have hInside : (grammar.kind rule).inside mode = .atomic := by rw [hKind]; rfl
  have hShows : grammar.shows rule mode = true := by simp [shows, hKind, hRecords]
  rw [hInside] at hBody
  rw [if_pos hShows, Piece.textOf_shown] at hBody ⊢
  refine ⟨Piece.textOf parts, takes_rule.2 hBody.takes, hBody.text_eq, rfl, ?_⟩
  rw [Piece.locateAll_shown, hBody.eq_chars rfl, Piece.locateAll_chars, Piece.textOf_chars]

/-- A rule of given characters takes these. -/
theorem Matches.of_literal_rule {word : String}
    (h : Matches grammar length (.once (.rule rule)) mode start nodes stop)
    (hBody : grammar.body rule = .literal word) :
    start.rest = word.toList ++ stop.rest ∧ stop = start.past word.toList ∧
      nodes = if grammar.shows rule mode then [.node rule start stop []] else [] := by
  obtain ⟨parts, hParts, rfl⟩ := h.of_rule
  rw [hBody] at hParts
  obtain ⟨pieces, hReads, rfl, rfl⟩ := hParts
  obtain ⟨rfl, hRest⟩ := hReads.of_literal
  rw [Piece.textOf_chars] at hRest ⊢
  exact ⟨hRest, rfl, by rw [Piece.locateAll_chars]⟩

end Leaves

end RowFilter.Grammar
