import RowFilter.Proofs.Grammar.Adequacy

/-! Matches as nodes between two cursors. `Matches` is the success side of
`Reads` with each piece at its place. Its inversion lemmas say of which
matches the nodes of an expression consist. -/

namespace RowFilter.Grammar

variable {R : Type} {grammar : Grammar R} {length : Nat} {task : Task R} {mode : Mode}

namespace Reads

variable {expr first second : Expr R} {text rest : List Char} {pieces : List (Piece R)}

theorem of_rule {rule : R}
    (h : Reads grammar length (.once (.rule rule)) mode text (some (pieces, rest))) :
    ∃ parts, Reads grammar length (.once (grammar.body rule)) ((grammar.kind rule).inside mode)
        text (some (parts, rest)) ∧
      pieces = if grammar.shows rule mode then [.shown rule parts] else parts := by
  generalize hOutcome : (some (pieces, rest) : Outcome R) = outcome at h
  cases h with
  | rule hBody =>
    cases hShows : grammar.shows rule mode with
    | true =>
      rw [Outcome.ofBody, hShows, if_pos rfl] at hOutcome
      obtain ⟨⟨parts, stop⟩, rfl, hEq⟩ := Option.map_eq_some_iff.1 hOutcome.symm
      cases hEq
      exact ⟨parts, hBody, rfl⟩
    | false =>
      rw [Outcome.ofBody, hShows] at hOutcome
      subst hOutcome
      exact ⟨pieces, hBody, rfl⟩

private theorem body_none {rule : R} {outcome : Outcome R}
    (h : Reads grammar length (.once (.rule rule)) mode text outcome) (hNone : outcome = none) :
    Reads grammar length (.once (grammar.body rule)) ((grammar.kind rule).inside mode)
      text none := by
  cases h with
  | rule hBody =>
    rw [Outcome.ofBody] at hNone
    split at hNone
    · rwa [Option.map_eq_none_iff.1 hNone] at hBody
    · rwa [hNone] at hBody

/-- A rule fails where its body does. -/
theorem rule_none {rule : R} :
    Reads grammar length (.once (.rule rule)) mode text none ↔
      Reads grammar length (.once (grammar.body rule)) ((grammar.kind rule).inside mode)
        text none := by
  refine ⟨fun h => body_none h rfl, fun h => ?_⟩
  have hRule := Reads.rule h
  rwa [Outcome.ofBody, Option.map_none, ite_self] at hRule

theorem of_seq (h : Reads grammar length (.once (.seq first second)) mode text
      (some (pieces, rest))) :
    ∃ parts stop others,
      Reads grammar length (.once first) mode text (some (parts, stop)) ∧
      Reads grammar length (.once second) mode (mode.behindGap grammar.isBlank stop)
        (some (others, rest)) ∧
      pieces = parts ++ Piece.chars (mode.gap grammar.isBlank stop) ++ others := by
  cases h with
  | seq hFirst hSecond => exact ⟨_, _, _, hFirst, hSecond, rfl⟩

theorem of_choice (h : Reads grammar length (.once (.choice first second)) mode text
      (some (pieces, rest))) :
    Reads grammar length (.once first) mode text (some (pieces, rest)) ∨
      Reads grammar length (.once first) mode text none ∧
        Reads grammar length (.once second) mode text (some (pieces, rest)) := by
  cases h with
  | choiceFirst hFirst => exact .inl hFirst
  | choiceSecond hFirst hSecond => exact .inr ⟨hFirst, hSecond⟩

/-- The test for the beginning of a text takes nothing. -/
theorem of_atStart (h : Reads grammar length (.once .atStart) mode text (some (pieces, rest))) :
    pieces = [] ∧ rest = text := by
  generalize hOutcome : some (pieces, rest) = outcome at h
  cases h
  split at hOutcome
  · exact Prod.mk.inj (Option.some.inj hOutcome)
  · cases hOutcome

/-- The test for the end of a text succeeds there only. -/
theorem of_atEnd (h : Reads grammar length (.once .atEnd) mode text (some (pieces, rest))) :
    pieces = [] ∧ rest = text ∧ text = [] := by
  generalize hOutcome : some (pieces, rest) = outcome at h
  cases h
  split at hOutcome
  · next hEmpty =>
    obtain ⟨hPieces, hRest⟩ := Prod.mk.inj (Option.some.inj hOutcome)
    exact ⟨hPieces, hRest, List.isEmpty_iff.1 hEmpty⟩
  · cases hOutcome

/-- Where nothing is recorded only characters are shown. -/
theorem eq_chars (h : Reads grammar length task mode text (some (pieces, rest)))
    (hMode : mode.records = false) : pieces = Piece.chars (Piece.textOf pieces) := by
  generalize hOutcome : (some (pieces, rest) : Outcome R) = outcome at h
  induction h generalizing pieces rest with
  | literal | word | oneOf =>
    obtain ⟨taken, -, rfl⟩ := Outcome.ofTaken_eq_some.1 hOutcome.symm
    rw [Piece.textOf_chars]
  | atStart | atEnd =>
    split at hOutcome <;> cases hOutcome
    rfl
  | @rule rule mode _ _ _ ih =>
    have hShows : grammar.shows rule mode = false := by simp [shows, hMode]
    have hInside : ((grammar.kind rule).inside mode).records = false := by
      cases grammar.kind rule <;> simp [Kind.inside, hMode]
    rw [Outcome.ofBody, hShows] at hOutcome
    exact ih hInside hOutcome
  | seqFirst | seqSecond | unlessSome => cases hOutcome
  | seq _ _ ihFirst ihSecond =>
    cases hOutcome
    rw [ihFirst hMode rfl, ihSecond hMode rfl]
    simp [Piece.chars_append]
  | choiceFirst _ ih | optionalSome _ ih => exact ih hMode hOutcome
  | choiceSecond _ _ _ ih => exact ih hMode hOutcome
  | optionalNone | unlessNone | manyNone | againNone =>
    cases hOutcome
    rfl
  | many _ _ ihBody ihAgain =>
    cases hOutcome
    rw [ihBody hMode rfl, ihAgain hMode rfl]
    simp [Piece.chars_append]
  | again _ _ ihBody ihAgain =>
    cases hOutcome
    rw [ihBody hMode rfl, ihAgain hMode rfl]
    simp [Piece.chars_append]

end Reads

/-- A task succeeds at a cursor, showing some matches up to another cursor. -/
def Matches (grammar : Grammar R) (length : Nat) (task : Task R) (mode : Mode)
    (start : Cursor) (nodes : List (Node R)) (stop : Cursor) : Prop :=
  ∃ pieces, Reads grammar length task mode start.rest (some (pieces, stop.rest)) ∧
    nodes = Piece.locateAll start pieces ∧ stop = start.past (Piece.textOf pieces)

namespace Matches

variable {expr first second : Expr R} {start stop : Cursor} {nodes : List (Node R)}

/-- A rule matches what its body matches. -/
theorem of_rule {rule : R}
    (h : Matches grammar length (.once (.rule rule)) mode start nodes stop) :
    ∃ parts, Matches grammar length (.once (grammar.body rule)) ((grammar.kind rule).inside mode)
        start parts stop ∧
      nodes = if grammar.shows rule mode then [.node rule start stop parts] else parts := by
  obtain ⟨pieces, hReads, rfl, hStop⟩ := h
  obtain ⟨parts, hBody, rfl⟩ := hReads.of_rule
  split at hStop
  · rw [Piece.textOf_shown] at hStop
    exact ⟨_, ⟨parts, hBody, rfl, hStop⟩, by simp [*]⟩
  · exact ⟨_, ⟨parts, hBody, rfl, hStop⟩, by simp [*]⟩

/-- A sequence matches in two parts. -/
theorem of_seq (h : Matches grammar length (.once (.seq first second)) mode start nodes stop) :
    ∃ parts middle others,
      Matches grammar length (.once first) mode start parts middle ∧
      Matches grammar length (.once second) mode (mode.skip grammar.isBlank middle) others stop ∧
      nodes = parts ++ others := by
  obtain ⟨pieces, hReads, rfl, hStop⟩ := h
  obtain ⟨parts, rest, others, hFirst, hSecond, rfl⟩ := hReads.of_seq
  obtain rfl := (Cursor.rest_past hFirst.text_eq).symm
  have hSkip := Mode.skip_eq mode grammar.isBlank (start.past (Piece.textOf parts))
  refine ⟨_, _, _, ⟨parts, hFirst, rfl, rfl⟩, ⟨others, ?_, rfl, ?_⟩, ?_⟩
  · rwa [Mode.rest_skip]
  · rw [hStop, hSkip]
    simp [Cursor.past_append]
  · rw [hSkip]
    simp

theorem of_choice
    (h : Matches grammar length (.once (.choice first second)) mode start nodes stop) :
    Matches grammar length (.once first) mode start nodes stop ∨
      Matches grammar length (.once second) mode start nodes stop := by
  obtain ⟨pieces, hReads, hNodes, hStop⟩ := h
  rcases hReads.of_choice with hFirst | ⟨-, hSecond⟩
  · exact .inl ⟨pieces, hFirst, hNodes, hStop⟩
  · exact .inr ⟨pieces, hSecond, hNodes, hStop⟩

/-- Behind a gap a repetition is nothing, or rounds with the gap in front of the first one. -/
theorem of_many (h : Matches grammar length (.once (.many expr)) mode
      (mode.skip grammar.isBlank start) nodes stop) :
    (nodes = [] ∧ stop = mode.skip grammar.isBlank start) ∨
      Matches grammar length (.again expr) mode start nodes stop := by
  obtain ⟨pieces, hReads, rfl, hStop⟩ := h
  generalize hRest : stop.rest = rest at hReads
  rw [Mode.rest_skip] at hReads
  cases hReads with
  | manyNone => exact .inl ⟨rfl, hStop⟩
  | @many _ _ _ middle _ parts others hBody hAgain =>
    have hRounds := Reads.again hBody hAgain
    rw [← hRest, List.append_assoc] at hRounds
    refine .inr ⟨_, hRounds, ?_, ?_⟩
    · rw [Mode.skip_eq]
      simp
    · rw [hStop, Mode.skip_eq]
      simp [Cursor.past_append]

private theorem of_rounds {motive : Cursor → List (Node R) → Prop}
    (h : Matches grammar length (.again expr) mode start nodes stop) (last : motive stop [])
    (more : ∀ {start middle : Cursor} {parts others : List (Node R)},
      Matches grammar length (.once expr) mode (mode.skip grammar.isBlank start) parts middle →
      Matches grammar length (.again expr) mode middle others stop → motive middle others →
      motive start (parts ++ others)) : motive start nodes := by
  obtain ⟨pieces, hReads, rfl, hStop⟩ := h
  generalize hTask : Task.again expr = task at hReads
  generalize hText : start.rest = text at hReads
  generalize hOutcome : some (pieces, stop.rest) = outcome at hReads
  induction hReads generalizing start pieces with
  | againNone =>
    cases hOutcome
    obtain rfl : stop = start := hStop
    exact last
  | @again _ mode text middle _ parts others hBody hAgain _ ih =>
    cases hTask
    cases hOutcome
    subst hText
    have hSkip := Mode.skip_eq mode grammar.isBlank start
    rw [← Mode.rest_skip] at hBody
    obtain rfl := (Cursor.rest_past hBody.text_eq).symm
    have hLast : stop = ((mode.skip grammar.isBlank start).past (Piece.textOf parts)).past
        (Piece.textOf others) := by
      rw [hStop, hSkip]
      simp [Cursor.past_append]
    have hNodes := more ⟨parts, hBody, rfl, rfl⟩ ⟨others, hAgain, rfl, hLast⟩
      (ih more _ hLast rfl rfl rfl)
    rw [hSkip] at hNodes
    simpa using hNodes
  | _ => cases hTask

/-- Rounds are read one behind the other: what holds behind the last one, and in front of a round
if it holds behind it, holds in front of all of them. -/
@[elab_as_elim]
theorem again_induction {motive : ∀ (start : Cursor) (nodes : List (Node R)),
      Matches grammar length (.again expr) mode start nodes stop → Prop}
    (h : Matches grammar length (.again expr) mode start nodes stop)
    (last : ∀ h, motive stop [] h)
    (more : ∀ {start middle : Cursor} {parts others : List (Node R)} (h)
      (_ : Matches grammar length (.once expr) mode (mode.skip grammar.isBlank start) parts middle)
      (hOthers : Matches grammar length (.again expr) mode middle others stop),
      motive middle others hOthers → motive start (parts ++ others) h) :
    motive start nodes h :=
  of_rounds (motive := fun start nodes => ∀ h, motive start nodes h) h last
    (fun hRound hOthers ih h => more h hRound hOthers (ih hOthers)) h

/-- Characters show no match. -/
theorem literal_nodes {word : String}
    (h : Matches grammar length (.once (.literal word)) mode start nodes stop) : nodes = [] := by
  obtain ⟨pieces, hReads, rfl, -⟩ := h
  generalize hOutcome : some (pieces, stop.rest) = outcome at hReads
  cases hReads
  obtain ⟨taken, -, rfl⟩ := Outcome.ofTaken_eq_some.1 hOutcome.symm
  exact Piece.locateAll_chars ..

/-- The test for the beginning of a text shows nothing and takes nothing. -/
theorem of_atStart (h : Matches grammar length (.once .atStart) mode start nodes stop) :
    nodes = [] ∧ stop = start := by
  obtain ⟨pieces, hReads, rfl, hStop⟩ := h
  obtain ⟨rfl, -⟩ := hReads.of_atStart
  exact ⟨rfl, hStop⟩

/-- The test for the end of a text shows nothing and succeeds there only. -/
theorem of_atEnd (h : Matches grammar length (.once .atEnd) mode start nodes stop) :
    nodes = [] ∧ start.rest = [] := by
  obtain ⟨pieces, hReads, rfl, -⟩ := h
  obtain ⟨rfl, -, hRest⟩ := hReads.of_atEnd
  exact ⟨rfl, hRest⟩

/-- No matches are shown where none are recorded. -/
theorem nodes_eq_nil (h : Matches grammar length task mode start nodes stop)
    (hMode : mode.records = false) : nodes = [] := by
  obtain ⟨pieces, hReads, rfl, -⟩ := h
  rw [hReads.eq_chars hMode, Piece.locateAll_chars]

/-- A match leaves no more text than there was. -/
theorem length_le (h : Matches grammar length task mode start nodes stop) :
    stop.rest.length ≤ start.rest.length := by
  obtain ⟨pieces, hReads, -, -⟩ := h
  exact hReads.length_le

/-- An expression that takes a character leaves less text than there was. -/
theorem length_lt {rank : R → Nat} {consuming : R → Bool}
    (h : Matches grammar length (.once expr) mode start nodes stop)
    (hRanked : Ranked grammar rank consuming) (hConsumes : expr.consumes consuming = true) :
    stop.rest.length < start.rest.length := by
  obtain ⟨pieces, hReads, -, -⟩ := h
  exact hRanked.length_lt hReads hConsumes

/-- An expression that takes a character does not match at the end of a text. -/
theorem rest_ne_nil {rank : R → Nat} {consuming : R → Bool}
    (h : Matches grammar length (.once expr) mode start nodes stop)
    (hRanked : Ranked grammar rank consuming) (hConsumes : expr.consumes consuming = true) :
    start.rest ≠ [] := by
  obtain ⟨pieces, hReads, -, -⟩ := h
  exact hRanked.text_ne_nil hReads hConsumes

/-- A task shows the same matches whenever it succeeds at a cursor. -/
theorem unique {others : List (Node R)} {last : Cursor}
    (h : Matches grammar length task mode start nodes stop)
    (hOther : Matches grammar length task mode start others last) : nodes = others := by
  obtain ⟨pieces, hReads, rfl, -⟩ := h
  obtain ⟨otherPieces, hOtherReads, rfl, -⟩ := hOther
  obtain ⟨rfl, -⟩ := Prod.mk.inj (Option.some.inj (hReads.unique hOtherReads))
  rfl

end Matches

section Parse

variable [DecidableEq R] {rank : R → Nat} {consuming : R → Bool} {rule : R} {text : List Char}

/-- Parsing succeeds with the matches of the rule. -/
theorem exists_matches_of_parse (hRanked : Ranked grammar rank consuming) {nodes : List (Node R)}
    (h : grammar.parse rule text = .ok nodes) :
    ∃ stop, Matches grammar text.length (.once (.rule rule)) .initial (.ofText text) nodes stop := by
  obtain ⟨outcome, hReads, hResult⟩ := exists_reads_read hRanked rule text
  rw [parse] at h
  split at h
  · next hRead =>
    cases h
    rw [hRead] at hResult
    obtain ⟨⟨pieces, rest⟩, rfl, hEq⟩ := Option.map_eq_some_iff.1 hResult.symm
    cases hEq
    have hRest : ((Cursor.ofText text).past (Piece.textOf pieces)).rest = rest :=
      Cursor.rest_past hReads.text_eq
    exact ⟨_, pieces, by rwa [hRest], rfl, rfl⟩
  · cases h

/-- Parsing fails where the rule has no match. -/
theorem not_matches_of_parse (hRanked : Ranked grammar rank consuming) {expected : Expected R}
    (h : grammar.parse rule text = .error expected) (nodes : List (Node R)) (stop : Cursor) :
    ¬Matches grammar text.length (.once (.rule rule)) .initial (.ofText text) nodes stop := by
  rintro ⟨pieces, hPieces, -⟩
  obtain ⟨outcome, hReads, hResult⟩ := exists_reads_read hRanked rule text
  rw [hReads.unique hPieces] at hResult
  rw [parse] at h
  split at h
  · cases h
  · next hRead =>
    rw [hRead] at hResult
    cases hResult

end Parse

theorem Mode.length_skip_le (mode : Mode) (isBlank : Char → Bool) (cursor : Cursor) :
    (mode.skip isBlank cursor).rest.length ≤ cursor.rest.length := by
  rw [Mode.rest_skip]
  exact mode.length_behindGap_le isBlank cursor.rest

end RowFilter.Grammar
