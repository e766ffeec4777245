import RowFilter.Proofs.Grammar.Calls

/-! The readers of a ranked grammar agree with `Reads`. Depth is spent on
nested rules and renewed by each character that is taken, so an expression
has room at a text if the depth covers a full descent in rank for each
character left. Within that room a reader neither runs out of depth nor out
of repetitions, whatever it expected before. -/

namespace RowFilter.Grammar

variable {R : Type} {grammar : Grammar R} {rank : R → Nat} {consuming : R → Bool}

/-- Depth suffices for an expression at a text. -/
structure HasRoom (grammar : Grammar R) (rank : R → Nat) (consuming : R → Bool) (depth : Nat)
    (expr : Expr R) (text : List Char) : Prop where
  depth_le : text.length * grammar.rules.length ≤ depth
  leading_lt : ∀ rule ∈ expr.leading consuming,
    text.length * grammar.rules.length + rank rule < depth

namespace HasRoom

variable {depth : Nat} {expr other : Expr R} {text rest : List Char}

/-- A character that was taken gives room to every expression. -/
theorem of_shorter (hRanked : Ranked grammar rank consuming)
    (h : HasRoom grammar rank consuming depth expr text) (hLt : rest.length < text.length) :
    HasRoom grammar rank consuming depth other rest := by
  have hRound : (rest.length + 1) * grammar.rules.length ≤ text.length * grammar.rules.length :=
    Nat.mul_le_mul_right _ hLt
  rw [Nat.add_one_mul] at hRound
  have hDepth := h.depth_le
  refine ⟨by omega, fun rule _ => ?_⟩
  have hRank := hRanked.rank_lt rule
  omega

/-- There is room for an expression that tries no further rules, also behind blanks. -/
theorem mono (h : HasRoom grammar rank consuming depth expr text)
    (hLe : rest.length ≤ text.length)
    (hLeading : other.leading consuming ⊆ expr.leading consuming) :
    HasRoom grammar rank consuming depth other rest := by
  have hRound : rest.length * grammar.rules.length ≤ text.length * grammar.rules.length :=
    Nat.mul_le_mul_right _ hLe
  refine ⟨Nat.le_trans hRound h.depth_le, fun rule hRule => ?_⟩
  have hLt := h.leading_lt rule (hLeading hRule)
  omega

/-- A nested rule spends one level of depth. -/
theorem body (hRanked : Ranked grammar rank consuming) {rule : R}
    (h : HasRoom grammar rank consuming (depth + 1) (.rule rule) text) :
    HasRoom grammar rank consuming depth (grammar.body rule) text := by
  have hRank := h.leading_lt rule (List.mem_singleton_self rule)
  refine ⟨by omega, fun other hOther => ?_⟩
  have hLt := hRanked.rank_leading_lt rule other hOther
  omega

/-- The second expression of a sequence stands at the same place only if the first one may take
nothing. -/
theorem second (hRanked : Ranked grammar rank consuming) {first second : Expr R} {mode : Mode}
    {length : Nat} {pieces : List (Piece R)}
    (h : HasRoom grammar rank consuming depth (.seq first second) text)
    (hFirst : Reads grammar length (.once first) mode text (some (pieces, rest))) :
    HasRoom grammar rank consuming depth second (mode.behindGap grammar.isBlank rest) := by
  have hGapLe := mode.length_behindGap_le grammar.isBlank rest
  cases hConsumes : first.consumes consuming with
  | true =>
    have hLt := hRanked.length_lt hFirst hConsumes
    exact h.of_shorter hRanked (by omega)
  | false =>
    have hRestLe := hFirst.length_le
    apply h.mono (by omega)
    simp [Expr.leading, hConsumes]

end HasRoom

/-- A reader gives the located outcome of an expression wherever a text of at
most the given length is left and there is room, and accounts for what it expects. -/
def Agrees (grammar : Grammar R) (rank : R → Nat) (consuming : R → Bool) (text : List Char)
    (depth : Nat) (expr : Expr R) (mode : Mode) (reader : Reader R) : Prop :=
  ∀ (cursor : Cursor) (expected : Expected R), cursor.StandsIn text →
    HasRoom grammar rank consuming depth expr cursor.rest →
    ∃ outcome, Reads grammar text.length (.once expr) mode cursor.rest outcome ∧
      (reader cursor expected).result = outcome.locate cursor ∧
      Accounts grammar text ⟨.once expr, mode, cursor.rest⟩ expected
        (reader cursor expected).expected

theorem Cursor.StandsIn.length_le {text : List Char} {cursor : Cursor}
    (h : cursor.StandsIn text) : cursor.rest.length ≤ text.length := by
  obtain ⟨before, hText, -⟩ := h
  have hLength := congrArg List.length hText
  rw [List.length_append] at hLength
  omega

private theorem Reads.cursor_past {length : Nat} {task : Task R} {mode : Mode} {text : List Char}
    {cursor : Cursor} {pieces : List (Piece R)} {rest : List Char}
    (hStands : cursor.StandsIn text)
    (h : Reads grammar length task mode cursor.rest (some (pieces, rest))) :
    (cursor.past (Piece.textOf pieces)).rest = rest ∧
      (cursor.past (Piece.textOf pieces)).StandsIn text :=
  ⟨Cursor.rest_past h.text_eq, hStands.past h.text_eq⟩

/-- Skipping blanks stays within the text. -/
theorem Mode.skip_standsIn (mode : Mode) {text : List Char} {cursor : Cursor}
    (isBlank : Char → Bool) (hStands : cursor.StandsIn text) :
    (mode.skip isBlank cursor).rest = mode.behindGap isBlank cursor.rest ∧
      (mode.skip isBlank cursor).StandsIn text := by
  refine ⟨mode.rest_skip isBlank cursor, ?_⟩
  rw [Mode.skip_eq]
  exact hStands.past (mode.gap_append_behindGap isBlank cursor.rest).symm

section Readers

variable {text : List Char} {depth bound : Nat} {readRule : R → Mode → Reader R} {mode : Mode}

/-- A reader fails where its expression does, or it shows what the expression reads and goes on
behind that. -/
theorem Agrees.fails_or_succeeds {expr : Expr R} {reader : Reader R} {cursor : Cursor}
    (h : Agrees grammar rank consuming text depth expr mode reader) (expected : Expected R)
    (hStands : cursor.StandsIn text)
    (hRoom : HasRoom grammar rank consuming depth expr cursor.rest) :
    ∃ later, Accounts grammar text ⟨.once expr, mode, cursor.rest⟩ expected later ∧
      (reader cursor expected = .failure later ∧
          Reads grammar text.length (.once expr) mode cursor.rest none ∨
        ∃ pieces rest, reader cursor expected =
            .success later (Piece.locateAll cursor pieces) (cursor.past (Piece.textOf pieces)) ∧
          Reads grammar text.length (.once expr) mode cursor.rest (some (pieces, rest))) := by
  obtain ⟨outcome, hReads, hResult, hAccounts⟩ := h cursor expected hStands hRoom
  refine ⟨_, hAccounts, ?_⟩
  generalize reader cursor expected = reading at hResult
  obtain ⟨later, result⟩ := reading
  cases hResult
  cases outcome with
  | none => exact .inl ⟨rfl, hReads⟩
  | some success => exact .inr ⟨success.1, success.2, rfl, hReads⟩

/-- A sequence is read as the relation says if its expressions are. -/
theorem Agrees.seq (hRanked : Ranked grammar rank consuming) {first second : Expr R}
    (hFirstReads : Agrees grammar rank consuming text depth first mode
      (first.read grammar.isBlank readRule bound mode))
    (hSecondReads : Agrees grammar rank consuming text depth second mode
      (second.read grammar.isBlank readRule bound mode)) :
    Agrees grammar rank consuming text depth (.seq first second) mode
      ((Expr.seq first second).read grammar.isBlank readRule bound mode) := by
  intro cursor expected hStands hRoom
  obtain ⟨later, hAccounts, hCases⟩ := hFirstReads.fails_or_succeeds expected hStands
    (hRoom.mono (Nat.le_refl _) (List.subset_append_left ..))
  replace hAccounts := hAccounts.of_inner (.seqFirst first second mode cursor.rest)
  rw [Expr.read]
  rcases hCases with ⟨hReading, hFirst⟩ | ⟨pieces, rest, hReading, hFirst⟩
  · rw [hReading]
    exact ⟨none, .seqFirst hFirst, rfl, hAccounts⟩
  · obtain ⟨hRest, hNextStands⟩ := hFirst.cursor_past hStands
    obtain ⟨hSkipRest, hSkipStands⟩ := mode.skip_standsIn grammar.isBlank hNextStands
    rw [hRest] at hSkipRest
    have hSecondRoom := hRoom.second hRanked hFirst
    rw [← hSkipRest] at hSecondRoom
    obtain ⟨last, hLast, hCases⟩ :=
      hSecondReads.fails_or_succeeds later hSkipStands hSecondRoom
    rw [hSkipRest] at hLast hCases
    replace hLast := hAccounts.trans (hLast.of_inner (.seqSecond second hFirst))
    rw [hReading]
    dsimp only [Reading.success]
    rcases hCases with ⟨hReading, hSecond⟩ | ⟨others, stop, hReading, hSecond⟩
    · rw [hReading]
      exact ⟨none, .seqSecond hFirst hSecond, rfl, hLast⟩
    · rw [hReading]
      refine ⟨_, .seq hFirst hSecond, ?_, hLast⟩
      simp [Reading.success, Outcome.locate, Mode.skip_eq, hRest, Cursor.past_append]

/-- A choice is read as the relation says if its expressions are. -/
theorem Agrees.choice {first second : Expr R}
    (hFirstReads : Agrees grammar rank consuming text depth first mode
      (first.read grammar.isBlank readRule bound mode))
    (hSecondReads : Agrees grammar rank consuming text depth second mode
      (second.read grammar.isBlank readRule bound mode)) :
    Agrees grammar rank consuming text depth (.choice first second) mode
      ((Expr.choice first second).read grammar.isBlank readRule bound mode) := by
  intro cursor expected hStands hRoom
  obtain ⟨later, hAccounts, hCases⟩ := hFirstReads.fails_or_succeeds expected hStands
    (hRoom.mono (Nat.le_refl _) (List.subset_append_left ..))
  replace hAccounts := hAccounts.of_inner (.choiceFirst first second mode cursor.rest)
  rw [Expr.read]
  rcases hCases with ⟨hReading, hFirst⟩ | ⟨pieces, rest, hReading, hFirst⟩
  · rw [hReading]
    obtain ⟨outcome, hSecond, hResult, hLast⟩ := hSecondReads cursor later hStands
      (hRoom.mono (Nat.le_refl _) (List.subset_append_right ..))
    exact ⟨outcome, .choiceSecond hFirst hSecond, hResult,
      hAccounts.trans (hLast.of_inner (.choiceSecond second hFirst))⟩
  · rw [hReading]
    exact ⟨_, .choiceFirst hFirst, rfl, hAccounts⟩

/-- An option is read as the relation says if its body is. -/
theorem Agrees.optional {body : Expr R}
    (hBodyReads : Agrees grammar rank consuming text depth body mode
      (body.read grammar.isBlank readRule bound mode)) :
    Agrees grammar rank consuming text depth (.optional body) mode
      ((Expr.optional body).read grammar.isBlank readRule bound mode) := by
  intro cursor expected hStands hRoom
  obtain ⟨later, hAccounts, hCases⟩ := hBodyReads.fails_or_succeeds expected hStands
    (hRoom.mono (Nat.le_refl _) (List.Subset.refl _))
  replace hAccounts := hAccounts.of_inner (.optionalBody body mode cursor.rest)
  rw [Expr.read]
  rcases hCases with ⟨hReading, hBody⟩ | ⟨pieces, rest, hReading, hBody⟩
  · rw [hReading]
    exact ⟨_, .optionalNone hBody, rfl, hAccounts⟩
  · rw [hReading]
    exact ⟨_, .optionalSome hBody, rfl, hAccounts⟩

/-- A negative lookahead is read as the relation says if its body is, with no match recorded. -/
theorem Agrees.unless {body : Expr R}
    (hBodyReads : Agrees grammar rank consuming text depth body { mode with records := false }
      (body.read grammar.isBlank readRule bound { mode with records := false })) :
    Agrees grammar rank consuming text depth (.unless body) mode
      ((Expr.unless body).read grammar.isBlank readRule bound mode) := by
  intro cursor expected hStands hRoom
  obtain ⟨later, hAccounts, hCases⟩ := hBodyReads.fails_or_succeeds expected hStands
    (hRoom.mono (Nat.le_refl _) (List.Subset.refl _))
  replace hAccounts := hAccounts.of_inner (.unlessBody body mode cursor.rest)
  rw [Expr.read]
  rcases hCases with ⟨hReading, hBody⟩ | ⟨pieces, rest, hReading, hBody⟩
  · rw [hReading]
    exact ⟨_, .unlessNone hBody, rfl, hAccounts⟩
  · rw [hReading]
    exact ⟨_, .unlessSome hBody, rfl, hAccounts⟩

/-- Further rounds of an expression, as long as there are more tries than characters. -/
theorem Agrees.again (hRanked : Ranked grammar rank consuming) {body : Expr R}
    {reader : Reader R} (hReader : Agrees grammar rank consuming text depth body mode reader)
    (hConsumes : body.consumes consuming = true) (tries : Nat) (found : List (Node R))
    (cursor : Cursor) (expected : Expected R) (hStands : cursor.StandsIn text)
    (hRoom : HasRoom grammar rank consuming depth body cursor.rest)
    (hTries : cursor.rest.length < tries) :
    ∃ pieces rest,
      Reads grammar text.length (.again body) mode cursor.rest (some (pieces, rest)) ∧
      (repeatReader (mode.skip grammar.isBlank) reader tries found cursor expected).result =
        some (found.reverse ++ Piece.locateAll cursor pieces,
          cursor.past (Piece.textOf pieces)) ∧
      Accounts grammar text ⟨.again body, mode, cursor.rest⟩ expected
        (repeatReader (mode.skip grammar.isBlank) reader tries found cursor expected).expected := by
  induction tries generalizing found cursor expected with
  | zero => omega
  | succ tries ih =>
    obtain ⟨hSkipRest, hSkipStands⟩ := mode.skip_standsIn grammar.isBlank hStands
    have hGapLe := mode.length_behindGap_le grammar.isBlank cursor.rest
    have hSkipRoom : HasRoom grammar rank consuming depth body
        (mode.skip grammar.isBlank cursor).rest := by
      rw [hSkipRest]
      exact hRoom.mono hGapLe (List.Subset.refl _)
    obtain ⟨later, hAccounts, hCases⟩ := hReader.fails_or_succeeds expected hSkipStands hSkipRoom
    rw [hSkipRest] at hAccounts
    replace hAccounts := hAccounts.of_inner (.againFirst body mode cursor.rest)
    rw [repeatReader]
    rcases hCases with ⟨hReading, hBody⟩ | ⟨pieces, rest, hReading, hBody⟩
    · rw [hSkipRest] at hBody
      rw [hReading]
      exact ⟨[], cursor.rest, .againNone hBody, by simp [Reading.success, Reading.failure],
        hAccounts⟩
    · have hLt := hRanked.length_lt hBody hConsumes
      obtain ⟨hRest, hNextStands⟩ := hBody.cursor_past hSkipStands
      rw [hSkipRest] at hLt hBody
      rw [← hRest] at hLt hBody
      obtain ⟨others, stop, hAgain, hOthers, hLast⟩ := ih
        ((Piece.locateAll (mode.skip grammar.isBlank cursor) pieces).reverse ++ found)
        _ later hNextStands (hRoom.of_shorter hRanked (by omega)) (by omega)
      rw [hReading]
      refine ⟨_, stop, .again hBody hAgain, ?_,
        hAccounts.trans (hLast.of_inner (.againMore hBody))⟩
      simpa [Reading.success, Mode.skip_eq, Cursor.past_append] using hOthers

/-- A repetition is read as the relation says if its rounds are. -/
theorem Agrees.many (hRanked : Ranked grammar rank consuming) {body : Expr R}
    (hConsumes : body.consumes consuming = true) (hBound : text.length < bound)
    (hBodyReads : Agrees grammar rank consuming text depth body mode
      (body.read grammar.isBlank readRule bound mode)) :
    Agrees grammar rank consuming text depth (.many body) mode
      ((Expr.many body).read grammar.isBlank readRule bound mode) := by
  intro cursor expected hStands hRoom
  have hBodyRoom : HasRoom grammar rank consuming depth body cursor.rest :=
    hRoom.mono (Nat.le_refl _) (List.Subset.refl _)
  obtain ⟨later, hAccounts, hCases⟩ := hBodyReads.fails_or_succeeds expected hStands hBodyRoom
  replace hAccounts := hAccounts.of_inner (.manyFirst body mode cursor.rest)
  rw [Expr.read]
  rcases hCases with ⟨hReading, hBody⟩ | ⟨pieces, rest, hReading, hBody⟩
  · rw [hReading]
    exact ⟨_, .manyNone hBody, rfl, hAccounts⟩
  · obtain ⟨hRest, hNextStands⟩ := hBody.cursor_past hStands
    have hLt := hRanked.length_lt hBody hConsumes
    rw [← hRest] at hLt hBody
    have hLengthLe := hNextStands.length_le
    obtain ⟨others, stop, hAgain, hOthers, hLast⟩ := hBodyReads.again hRanked hConsumes bound
      (Piece.locateAll cursor pieces).reverse _ later hNextStands
      (hBodyRoom.of_shorter hRanked hLt) (by omega)
    rw [hReading]
    refine ⟨_, .many hBody hAgain, ?_, hAccounts.trans (hLast.of_inner (.manyAgain hBody))⟩
    simpa [Reading.success, Outcome.locate, Cursor.past_append] using hOthers

/-- Reading an expression agrees with `Reads` if the way to read rules does. -/
theorem Agrees.read (hRanked : Ranked grammar rank consuming)
    (hRule : ∀ rule mode,
      Agrees grammar rank consuming text depth (.rule rule) mode (readRule rule mode))
    (hBound : text.length < bound) (expr : Expr R) (mode : Mode)
    (hRounds : expr.roundsConsume consuming = true) :
    Agrees grammar rank consuming text depth expr mode
      (expr.read grammar.isBlank readRule bound mode) := by
  induction expr generalizing mode with
  | literal word =>
    intro cursor expected _ _
    exact ⟨_, .literal word mode cursor.rest, Reading.ofCursor?_result cursor,
      .of_eq (Reading.ofCursor?_expected ..)⟩
  | word word =>
    intro cursor expected _ _
    exact ⟨_, .word word mode cursor.rest, Reading.ofCursor?_result cursor,
      .of_eq (Reading.ofCursor?_expected ..)⟩
  | oneOf accepts =>
    intro cursor expected _ _
    refine ⟨_, .oneOf accepts mode cursor.rest, ?_⟩
    rw [Expr.read, Cursor.accept?_eq]
    exact ⟨Reading.ofCursor?_result cursor, .of_eq (Reading.ofCursor?_expected ..)⟩
  | atStart =>
    intro cursor expected hStands _
    refine ⟨_, .atStart mode cursor.rest, ?_⟩
    rw [Expr.read]
    simp only [hStands.offset_eq_zero_iff]
    split <;> exact ⟨rfl, .of_eq rfl⟩
  | atEnd =>
    intro cursor expected _ _
    refine ⟨_, .atEnd mode cursor.rest, ?_⟩
    rw [Expr.read]
    split <;> exact ⟨rfl, .of_eq rfl⟩
  | rule rule => exact hRule rule mode
  | seq first second ihFirst ihSecond =>
    rw [Expr.roundsConsume, Bool.and_eq_true] at hRounds
    exact .seq hRanked (ihFirst mode hRounds.1) (ihSecond mode hRounds.2)
  | choice first second ihFirst ihSecond =>
    rw [Expr.roundsConsume, Bool.and_eq_true] at hRounds
    exact .choice (ihFirst mode hRounds.1) (ihSecond mode hRounds.2)
  | optional body ih => exact .optional (ih mode hRounds)
  | many body ih =>
    rw [Expr.roundsConsume, Bool.and_eq_true] at hRounds
    exact .many hRanked hRounds.1 hBound (ih mode hRounds.2)
  | «unless» body ih => exact .unless (ih _ hRounds)

end Readers

/-- Reading a rule agrees with `Reads`. Each nested rule spends one level of depth. -/
theorem readRule_agrees (hRanked : Ranked grammar rank consuming) {text : List Char}
    {bound : Nat} (hBound : text.length < bound) (depth : Nat) (rule : R) (mode : Mode) :
    Agrees grammar rank consuming text depth (.rule rule) mode
      (grammar.readRule bound depth rule mode) := by
  induction depth generalizing rule mode with
  | zero =>
    intro cursor expected _ hRoom
    have hLt := hRoom.leading_lt rule (List.mem_singleton_self rule)
    omega
  | succ depth ih =>
    intro cursor expected hStands hRoom
    obtain ⟨outcome, hBody, hResult, hAccounts⟩ := Agrees.read hRanked ih hBound
      (grammar.body rule) ((grammar.kind rule).inside mode) (hRanked.rounds_consume rule) cursor
      expected hStands (hRoom.body hRanked)
    have hReads := Reads.rule hBody
    replace hAccounts := hAccounts.of_inner (.rule rule mode cursor.rest)
    rw [readRule]
    rcases hReading : (grammar.body rule).read grammar.isBlank (grammar.readRule bound depth) bound
      ((grammar.kind rule).inside mode) cursor expected with ⟨later, result⟩
    rw [hReading] at hResult hAccounts
    by_cases hShows : grammar.kind rule ≠ .silent ∧ mode.records
    · have hRecords : grammar.shows rule mode = true := by simp [shows, hShows]
      rw [hRecords] at hReads
      cases outcome with
      | none =>
        cases hResult
        refine ⟨none, hReads, by simp [hShows, Reading.record, Reading.failure, Outcome.locate], ?_⟩
        intro root calls hStack hExpected
        have hLater := hAccounts root calls hStack hExpected
        have hNoted := hLater.note hStands ⟨mode, calls, hRecords, hStack, hReads⟩
        simpa [hShows, Reading.record, Reading.failure] using hNoted _
      | some success =>
        cases hResult
        refine ⟨_, hReads, ?_, ?_⟩
        · simp [hShows, Outcome.ofBody, Reading.record, Reading.success, Outcome.locate]
        · simpa [hShows, Reading.record, Reading.success] using hAccounts
    · refine ⟨_, hReads, ?_, ?_⟩
      · simpa [hShows, shows, Outcome.ofBody] using hResult
      · simpa [hShows] using hAccounts

/-- As many levels for each place of a text as there are rules leave room for each rule. -/
theorem hasRoom_rule (hRanked : Ranked grammar rank consuming) (rule : R)
    {text : List Char} {length : Nat} (h : text.length ≤ length) :
    HasRoom grammar rank consuming ((length + 1) * grammar.rules.length) (.rule rule) text := by
  have hRank := hRanked.rank_lt rule
  have hRounds : (text.length + 1) * grammar.rules.length ≤ (length + 1) * grammar.rules.length :=
    Nat.mul_le_mul_right _ (Nat.succ_le_succ h)
  rw [Nat.add_one_mul text.length] at hRounds
  refine ⟨by omega, fun other hOther => ?_⟩
  rw [List.mem_singleton.1 hOther]
  omega

private theorem read_agrees (hRanked : Ranked grammar rank consuming) (rule : R)
    (text : List Char) :
    ∃ outcome, Reads grammar text.length (.once (.rule rule)) .initial text outcome ∧
      (grammar.read rule text).result = outcome.locate (.ofText text) ∧
      Accounts grammar text ⟨.once (.rule rule), .initial, text⟩ .empty
        (grammar.read rule text).expected :=
  readRule_agrees hRanked (Nat.lt_succ_self _) _ rule .initial _ _ (.ofText text)
    (hasRoom_rule hRanked rule (Nat.le_refl _))

/-- A rule reads a text as the relation says. -/
theorem exists_reads_read (hRanked : Ranked grammar rank consuming) (rule : R)
    (text : List Char) :
    ∃ outcome, Reads grammar text.length (.once (.rule rule)) .initial text outcome ∧
      (grammar.read rule text).result = outcome.locate (.ofText text) := by
  obtain ⟨outcome, hReads, hResult, -⟩ := read_agrees hRanked rule text
  exact ⟨outcome, hReads, hResult⟩

private theorem rules_ne_nil_of_readRule (hRanked : Ranked grammar rank consuming)
    {text : List Char} {bound depth : Nat} (hBound : text.length < bound) {rule : R} {mode : Mode}
    {cursor : Cursor} {expected : Expected R} (hShows : grammar.shows rule mode = true)
    (hStands : cursor.StandsIn text)
    (hRoom : HasRoom grammar rank consuming depth (.rule rule) cursor.rest) {root : Call R}
    {calls : List (Call R)}
    (hStack : IsStack grammar text.length root (⟨.once (.rule rule), mode, cursor.rest⟩ :: calls))
    (hExpected : Accounted grammar text root expected)
    (h : (grammar.readRule bound depth rule mode cursor expected).result = none) :
    (grammar.readRule bound depth rule mode cursor expected).expected.rules ≠ [] := by
  have hRank := hRoom.leading_lt rule (List.mem_singleton_self rule)
  obtain ⟨depth, rfl⟩ := Nat.exists_eq_succ_of_ne_zero (Nat.ne_zero_of_lt hRank)
  have hKind : grammar.kind rule ≠ .silent ∧ mode.records = true := by simpa [shows] using hShows
  obtain ⟨_, -, -, hAccounts⟩ := Agrees.read hRanked (readRule_agrees hRanked hBound depth) hBound
    (grammar.body rule) ((grammar.kind rule).inside mode) (hRanked.rounds_consume rule) cursor
    expected hStands (hRoom.body hRanked)
  have hLater := hAccounts.of_inner (.rule rule mode cursor.rest) root calls hStack hExpected
  rw [readRule] at h ⊢
  rw [if_pos hKind] at h ⊢
  rcases hReading : (grammar.body rule).read grammar.isBlank (grammar.readRule bound depth) bound
    ((grammar.kind rule).inside mode) cursor expected with ⟨later, _ | success⟩
  · rw [hReading] at hLater
    exact Expected.note_ne_nil hLater.ne_nil rule _ _
  · rw [hReading] at h
    cases h

private theorem rules_ne_nil_of_seq (hRanked : Ranked grammar rank consuming) {text : List Char}
    {bound depth : Nat} (hBound : text.length < bound) {first second : R} {mode : Mode}
    {cursor : Cursor} (hFirst : grammar.shows first mode = true)
    (hSecond : grammar.shows second mode = true) (hStands : cursor.StandsIn text)
    (hRoom : HasRoom grammar rank consuming depth (.seq (.rule first) (.rule second)) cursor.rest)
    (h : ((Expr.seq (.rule first) (.rule second)).read grammar.isBlank
      (grammar.readRule bound depth) bound mode cursor .empty).result = none) :
    ((Expr.seq (.rule first) (.rule second)).read grammar.isBlank
      (grammar.readRule bound depth) bound mode cursor .empty).expected.rules ≠ [] := by
  have hFirstRoom : HasRoom grammar rank consuming depth (.rule first) cursor.rest :=
    hRoom.mono (Nat.le_refl _) (List.subset_append_left ..)
  have hStack : IsStack grammar text.length
      ⟨.once (.seq (.rule first) (.rule second)), mode, cursor.rest⟩ _ := .call .root (.seqFirst ..)
  have hNonempty := rules_ne_nil_of_readRule hRanked hBound hFirst hStands hFirstRoom hStack
    (.empty _)
  obtain ⟨outcome, hReads, hResult, hAccounts⟩ := readRule_agrees hRanked hBound depth first mode
    cursor .empty hStands hFirstRoom
  have hLater := hAccounts _ _ hStack (.empty _)
  simp only [Expr.read] at h ⊢
  rcases hReading : grammar.readRule bound depth first mode cursor .empty with ⟨later, result⟩
  rw [hReading] at h hNonempty hResult hLater
  cases outcome with
  | none =>
    cases hResult
    exact hNonempty rfl
  | some success =>
    obtain ⟨pieces, rest⟩ := success
    cases hResult
    obtain ⟨hRest, hNextStands⟩ := hReads.cursor_past hStands
    obtain ⟨hSkipRest, hSkipStands⟩ := mode.skip_standsIn grammar.isBlank hNextStands
    rw [hRest] at hSkipRest
    have hSecondRoom := hRoom.second hRanked hReads
    have hSecondStack := IsStack.root.call (Inner.seqSecond (.rule second) hReads)
    rw [← hSkipRest] at hSecondRoom hSecondStack
    have hLast := rules_ne_nil_of_readRule hRanked hBound hSecond hSkipStands hSecondRoom
      hSecondStack hLater
    dsimp only at h ⊢
    rcases hSecondReading : grammar.readRule bound depth second mode
      (mode.skip grammar.isBlank (cursor.past (Piece.textOf pieces))) later with ⟨last, _ | success⟩
    · rw [hSecondReading] at hLast
      exact hLast rfl
    · rw [hSecondReading] at h
      cases h

/-- Where a whole text is no match of a rule for two other rules, reading their sequence behind the
blanks at the beginning fails, and the rule for the whole is noted behind that. -/
theorem exists_reading_of_read (hRanked : Ranked grammar rank consuming) {rule first second : R}
    (hKind : grammar.kind rule = .normal)
    (hBody : grammar.body rule = .seq .atStart (.seq (.rule first) (.rule second)))
    {text : List Char} (h : (grammar.read rule text).result = none) :
    ∃ depth cursor, cursor.StandsIn text ∧
      cursor.rest = Mode.initial.behindGap grammar.isBlank text ∧
      HasRoom grammar rank consuming depth (.seq (.rule first) (.rule second)) cursor.rest ∧
      ∃ later, (Expr.seq (.rule first) (.rule second)).read grammar.isBlank
          (grammar.readRule (text.length + 1) depth) (text.length + 1) .initial cursor .empty =
            .failure later ∧
        (grammar.read rule text).expected = later.note rule 0 0 := by
  have hRuleRoom := hasRoom_rule hRanked rule (Nat.le_refl text.length)
  have hRank := hRuleRoom.leading_lt rule (List.mem_singleton_self rule)
  obtain ⟨depth, hDepth⟩ := Nat.exists_eq_succ_of_ne_zero (Nat.ne_zero_of_lt hRank)
  rw [hDepth] at hRuleRoom
  obtain ⟨hRest, hStands⟩ := Mode.initial.skip_standsIn grammar.isBlank (Cursor.StandsIn.ofText text)
  refine ⟨depth, _, hStands, hRest, ?_, ?_⟩
  · rw [hRest]
    refine (hRuleRoom.body hRanked).mono (Mode.length_behindGap_le ..) ?_
    rw [hBody]
    exact List.subset_append_right ..
  have hStart : (Expr.atStart : Expr R).read grammar.isBlank
      (grammar.readRule (text.length + 1) depth) (text.length + 1) .initial (.ofText text) .empty =
        .success .empty [] (.ofText text) := rfl
  rcases hReading : (Expr.seq (.rule first) (.rule second)).read grammar.isBlank
    (grammar.readRule (text.length + 1) depth) (text.length + 1) .initial
    (Mode.initial.skip grammar.isBlank (.ofText text)) .empty with ⟨later, _ | success⟩
  · refine ⟨later, rfl, ?_⟩
    rw [read, hDepth, readRule, hBody, hKind, Kind.inside, Expr.read, hStart]
    dsimp only [Reading.success]
    rw [hReading]
    rfl
  · rw [read, hDepth, readRule, hBody, hKind, Kind.inside, Expr.read, hStart] at h
    dsimp only [Reading.success] at h
    rw [hReading] at h
    cases h

/-- Where a whole text is no match of a rule for two other rules, some rule is expected within
their sequence, and the rule for the whole is noted behind that. -/
theorem exists_accounted_of_read (hRanked : Ranked grammar rank consuming)
    {rule first second : R} (hKind : grammar.kind rule = .normal)
    (hBody : grammar.body rule = .seq .atStart (.seq (.rule first) (.rule second)))
    (hFirst : grammar.shows first .initial = true)
    (hSecond : grammar.shows second .initial = true) {text : List Char}
    (h : (grammar.read rule text).result = none) :
    ∃ later, (grammar.read rule text).expected = later.note rule 0 0 ∧ later.rules ≠ [] ∧
      Accounted grammar text ⟨.once (.seq (.rule first) (.rule second)), .initial,
        Mode.initial.behindGap grammar.isBlank text⟩ later := by
  obtain ⟨depth, cursor, hStands, hRest, hRoom, later, hReading, hExpected⟩ :=
    exists_reading_of_read hRanked hKind hBody h
  have hBound := Nat.lt_succ_self text.length
  obtain ⟨_, -, -, hAccounts⟩ := Agrees.read hRanked (readRule_agrees hRanked hBound depth) hBound
    (.seq (.rule first) (.rule second)) .initial rfl cursor .empty hStands hRoom
  have hLater := hAccounts _ [] .root (.empty _)
  have hNonempty := rules_ne_nil_of_seq hRanked hBound hFirst hSecond hStands hRoom
  rw [hReading, hRest] at hLater
  rw [hReading] at hNonempty
  exact ⟨later, hExpected, hNonempty rfl, hLater⟩

/-- What is expected of a text that is not read is what reading it left expected, in the order of the
rules. -/
theorem parse_eq_error [DecidableEq R] {rule : R} {text : List Char} {expected : Expected R} :
    grammar.parse rule text = .error expected ↔ (grammar.read rule text).result = none ∧
      expected = ⟨(grammar.read rule text).expected.offset,
        grammar.rules.filter (· ∈ (grammar.read rule text).expected.rules)⟩ := by
  rw [Grammar.parse]
  rcases grammar.read rule text with ⟨later, _ | ⟨nodes, stop⟩⟩ <;> simp [eq_comm]

/-- Some rules are expected where reading a text failed, and each of them was called for there and
failed. -/
theorem accounted_of_parse [DecidableEq R] (hRanked : Ranked grammar rank consuming)
    (hRules : ∀ rule, rule ∈ grammar.rules) {rule : R} (hShows : grammar.shows rule .initial = true)
    {text : List Char} {expected : Expected R}
    (h : grammar.parse rule text = .error expected) :
    expected.rules ≠ [] ∧ ∀ other ∈ expected.rules, ∃ before rest, text = before ++ rest ∧
      expected.offset = Text.byteLength before ∧
      IsNoted grammar text.length ⟨.once (.rule rule), .initial, text⟩ other rest := by
  obtain ⟨_, -, -, hAccounts⟩ := read_agrees hRanked rule text
  have hRead := hAccounts _ [] .root (.empty _)
  have hSome : (grammar.read rule text).result = none →
      (grammar.read rule text).expected.rules ≠ [] :=
    rules_ne_nil_of_readRule hRanked (Nat.lt_succ_self _) hShows (.ofText text)
      (hasRoom_rule hRanked rule (Nat.le_refl text.length)) .root (.empty _)
  obtain ⟨hFails, rfl⟩ := parse_eq_error.1 h
  constructor
  · obtain ⟨other, others, hOther⟩ := List.exists_cons_of_ne_nil (hSome hFails)
    refine List.ne_nil_of_mem (List.mem_filter.2 ⟨hRules other, decide_eq_true ?_⟩)
    rw [hOther]
    exact List.mem_cons_self
  · exact fun other hOther => hRead.isNoted other (of_decide_eq_true (List.mem_filter.1 hOther).2)

/-- A rule comes to something at each place of a text. -/
theorem exists_reads (hRanked : Ranked grammar rank consuming) (rule : R) (mode : Mode)
    {text : List Char} {length : Nat} (h : text.length ≤ length) :
    ∃ outcome, Reads grammar length (.once (.rule rule)) mode text outcome := by
  let before := List.replicate (length - text.length) ' '
  have hLength : (before ++ text).length = length := by simp [before, h]
  have hStands : ((Cursor.ofText (before ++ text)).past before).StandsIn (before ++ text) :=
    (Cursor.StandsIn.ofText _).past rfl
  have hRest : ((Cursor.ofText (before ++ text)).past before).rest = text := Cursor.rest_past rfl
  have hRoom := hasRoom_rule hRanked rule h
  rw [← hRest] at hRoom
  obtain ⟨outcome, hReads, -⟩ := readRule_agrees hRanked (Nat.lt_succ_self _) _ rule mode _ .empty
    hStands hRoom
  rw [hLength, hRest] at hReads
  exact ⟨outcome, hReads⟩

end RowFilter.Grammar
