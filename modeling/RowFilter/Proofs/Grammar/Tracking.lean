import RowFilter.Proofs.Grammar.Noting
import RowFilter.Proofs.Grammar.Order

/-! What stays expected. A rule that fails is left out if it failed through one
rule alone at its place, or if something was expected behind it. For many rules
the form of their bodies says that one of both holds whenever they fail. Such a
rule is tried, but it is never among those that are expected in the end. -/

namespace RowFilter.Grammar

variable {R : Type}

/-- What is known of the rules of a grammar for judging how expressions fail. -/
structure Habits (R : Type) where
  /-- The rules that are read. -/
  known : R → Bool
  /-- The rules that take a character whenever they succeed. -/
  consuming : R → Bool
  /-- The rules that note nothing where they begin. -/
  bare : R → Bool
  /-- The rules that let something be expected where they fail, or behind that place. -/
  reaching : R → Bool
  /-- The rules that let one rule more be expected where they fail, or something behind that
  place. -/
  marking : R → Bool

namespace Expr

/-- Whether an expression notes nothing where it begins. -/
def isBare (habits : Habits R) : Expr R → Bool
  | .rule r => habits.bare r
  | .seq first second =>
    first.isBare habits && (first.consumes habits.consuming || second.isBare habits)
  | .choice first second => first.isBare habits && second.isBare habits
  | .optional body | .many body => body.isBare habits
  | .literal _ | .word _ | .oneOf _ | .atStart | .atEnd | .unless _ => true

/-- Whether something is expected where an expression fails, or behind that place. -/
def reaches (habits : Habits R) : Expr R → Bool
  | .rule r => habits.reaching r
  | .seq first second => first.reaches habits && second.reaches habits
  | .choice first second => first.reaches habits || second.reaches habits
  | .optional _ | .many _ => true
  | .literal _ | .word _ | .oneOf _ | .atStart | .atEnd | .unless _ => false

/-- Whether one rule more is expected where an expression fails, or something behind that place. -/
def marks (habits : Habits R) : Expr R → Bool
  | .rule r => habits.marking r
  | .seq first second =>
    first.marks habits && first.consumes habits.consuming && second.reaches habits
  | .choice first second => first.isBare habits && second.marks habits
  | .optional _ | .many _ => true
  | .literal _ | .word _ | .oneOf _ | .atStart | .atEnd | .unless _ => false

end Expr

/-- Whether a rule may be expected in the end: one that is read and does not leave the noting to
its body. What fails inside an atomic rule is not noted. -/
def stays (grammar : Grammar R) (habits : Habits R) (rule : R) : Bool :=
  habits.known rule && (grammar.kind rule = .atomic || !(grammar.body rule).marks habits)

/-- What reading an expression at an offset makes of what was expected before. -/
structure Tracks (habits : Habits R) (kept : R → Bool) (expr : Expr R) (offset : Nat)
    (expected : Expected R) (reading : Reading R) : Prop where
  grows : Grows kept offset expected reading.expected
  bare : expr.isBare habits = true → Spared offset expected reading.expected
  reaches : expr.reaches habits = true → reading.result = none →
    offset ≤ reading.expected.offset
  marks : expr.marks habits = true → reading.result = none →
    Marked offset expected reading.expected

/-- A reader does what the form of its expression says, wherever there is room. -/
def IsTracked (grammar : Grammar R) (rank : R → Nat) (habits : Habits R) (kept : R → Bool)
    (text : List Char) (depth : Nat) (expr : Expr R) (reader : Reader R) : Prop :=
  ∀ (cursor : Cursor) (expected : Expected R), cursor.StandsIn text →
    HasRoom grammar rank habits.consuming depth expr cursor.rest →
    Tracks habits kept expr cursor.offset expected (reader cursor expected)

section Readers

variable {grammar : Grammar R} {rank : R → Nat} {habits : Habits R} {kept : R → Bool}
  {text : List Char} {depth bound : Nat} {readRule : R → Mode → Reader R} {mode : Mode}

/-- A success stands where the text of its pieces ends. -/
theorem Agrees.exists_next (hRanked : Ranked grammar rank habits.consuming) {expr : Expr R}
    {reader : Reader R} (h : Agrees grammar rank habits.consuming text depth expr mode reader)
    {cursor next : Cursor} {expected later : Expected R} {nodes : List (Node R)}
    (hStands : cursor.StandsIn text)
    (hRoom : HasRoom grammar rank habits.consuming depth expr cursor.rest)
    (hReading : reader cursor expected = ⟨later, some (nodes, next)⟩) :
    ∃ pieces, Reads grammar text.length (.once expr) mode cursor.rest (some (pieces, next.rest)) ∧
      next.StandsIn text ∧ cursor.offset ≤ next.offset ∧
      (expr.consumes habits.consuming = true → cursor.offset < next.offset) := by
  obtain ⟨outcome, hReads, hResult, -⟩ := h cursor expected hStands hRoom
  rw [hReading] at hResult
  cases outcome with
  | none => cases hResult
  | some success =>
    obtain ⟨pieces, rest⟩ := success
    cases hResult
    have hRest := Cursor.rest_past hReads.text_eq
    refine ⟨pieces, hRest ▸ hReads, hStands.past hReads.text_eq, ?_, fun hConsumes => ?_⟩
    · rw [Cursor.offset_past]
      exact Nat.le_add_right ..
    · have hTaken : Text.byteLength (Piece.textOf pieces) ≠ 0 :=
        fun hZero => hRanked.textOf_ne_nil hReads hConsumes (Text.byteLength_eq_zero.1 hZero)
      rw [Cursor.offset_past]
      omega

namespace Tracks

variable {expr first second : Expr R} {offset other : Nat} {expected later last : Expected R}
  {reading : Reading R} {success : List (Node R) × Cursor}

theorem leaf (hReaches : expr.reaches habits = false) (hMarks : expr.marks habits = false)
    (h : reading.expected = expected) : Tracks habits kept expr offset expected reading :=
  ⟨.of_eq h, fun _ => .inl (by rw [h]), fun hTrue => absurd hTrue (by rw [hReaches]; decide),
    fun hTrue => absurd hTrue (by rw [hMarks]; decide)⟩

/-- Of what succeeds, only the beginning matters. -/
theorem of_success (hSuccess : reading.result ≠ none)
    (hGrows : Grows kept offset expected reading.expected)
    (hBare : expr.isBare habits = true → Spared offset expected reading.expected) :
    Tracks habits kept expr offset expected reading :=
  ⟨hGrows, hBare, fun _ hNone => absurd hNone hSuccess, fun _ hNone => absurd hNone hSuccess⟩

theorem seqFirst (h : Tracks habits kept first offset expected ⟨later, none⟩) :
    Tracks habits kept (.seq first second) offset expected ⟨later, none⟩ := by
  refine ⟨h.grows, fun hBare => ?_, fun hReaches => ?_, fun hMarks => ?_⟩
  · rw [Expr.isBare, Bool.and_eq_true] at hBare
    exact h.bare hBare.1
  · rw [Expr.reaches, Bool.and_eq_true] at hReaches
    exact h.reaches hReaches.1
  · rw [Expr.marks, Bool.and_eq_true, Bool.and_eq_true] at hMarks
    exact h.marks hMarks.1.1

theorem seqSecond (hFirst : Tracks habits kept first offset expected ⟨later, some success⟩)
    (hLe : offset ≤ other) (hLt : first.consumes habits.consuming = true → offset < other)
    (hSecond : Tracks habits kept second other later reading)
    {result : Option (List (Node R) × Cursor)} (hResult : result = none → reading.result = none) :
    Tracks habits kept (.seq first second) offset expected ⟨reading.expected, result⟩ := by
  have hGrows := hSecond.grows
  refine ⟨hFirst.grows.trans (hGrows.mono hLe), fun hBare => ?_, fun hReaches hNone => ?_,
    fun hMarks hNone => ?_⟩
  · rw [Expr.isBare, Bool.and_eq_true, Bool.or_eq_true] at hBare
    refine (hFirst.bare hBare.1).trans hGrows ?_
    rcases Nat.lt_or_eq_of_le hLe with hLt | rfl
    · exact hGrows.spared hLt
    · exact hSecond.bare (hBare.2.resolve_left fun hConsumes => Nat.lt_irrefl _ (hLt hConsumes))
  · rw [Expr.reaches, Bool.and_eq_true] at hReaches
    exact Nat.le_trans hLe (hSecond.reaches hReaches.2 (hResult hNone))
  -- The first part took a character, so the second one begins further on.
  · rw [Expr.marks, Bool.and_eq_true, Bool.and_eq_true] at hMarks
    exact .inr (Nat.lt_of_lt_of_le (hLt hMarks.1.2) (hSecond.reaches hMarks.2 (hResult hNone)))

theorem choiceSecond (hFirst : Tracks habits kept first offset expected ⟨later, none⟩)
    (hSecond : Tracks habits kept second offset later reading) :
    Tracks habits kept (.choice first second) offset expected reading := by
  have hGrows := hSecond.grows
  refine ⟨hFirst.grows.trans hGrows, fun hBare => ?_, fun hReaches hNone => ?_,
    fun hMarks hNone => ?_⟩
  · rw [Expr.isBare, Bool.and_eq_true] at hBare
    exact (hFirst.bare hBare.1).trans hGrows (hSecond.bare hBare.2)
  · rw [Expr.reaches, Bool.or_eq_true] at hReaches
    rcases hReaches with hReaches | hReaches
    · exact Nat.le_trans (hFirst.reaches hReaches rfl) hGrows.offset_le
    · exact hSecond.reaches hReaches hNone
  · rw [Expr.marks, Bool.and_eq_true] at hMarks
    exact (hFirst.bare hMarks.1).marked hGrows (hSecond.marks hMarks.2 hNone)

end Tracks

/-- A sequence does what its form says if its expressions do. -/
theorem IsTracked.seq (hRanked : Ranked grammar rank habits.consuming) {first second : Expr R}
    (hAgrees : Agrees grammar rank habits.consuming text depth first mode
      (first.read grammar.isBlank readRule bound mode))
    (hFirst : IsTracked grammar rank habits kept text depth first
      (first.read grammar.isBlank readRule bound mode))
    (hSecond : IsTracked grammar rank habits kept text depth second
      (second.read grammar.isBlank readRule bound mode)) :
    IsTracked grammar rank habits kept text depth (.seq first second)
      ((Expr.seq first second).read grammar.isBlank readRule bound mode) := by
  intro cursor expected hStands hRoom
  have hFirstRoom : HasRoom grammar rank habits.consuming depth first cursor.rest :=
    hRoom.mono (Nat.le_refl _) (List.subset_append_left ..)
  have hFirstTracks := hFirst cursor expected hStands hFirstRoom
  rw [Expr.read]
  rcases hReading : first.read grammar.isBlank readRule bound mode cursor expected with
    ⟨later, _ | ⟨nodes, next⟩⟩ <;> rw [hReading] at hFirstTracks
  · exact hFirstTracks.seqFirst
  · obtain ⟨pieces, hReads, hNextStands, hLe, hLt⟩ :=
      hAgrees.exists_next hRanked hStands hFirstRoom hReading
    obtain ⟨hSkipRest, hSkipStands⟩ := mode.skip_standsIn grammar.isBlank hNextStands
    have hSkipLe := mode.offset_le_skip grammar.isBlank next
    have hSecondTracks := hSecond _ later hSkipStands (hSkipRest ▸ hRoom.second hRanked hReads)
    replace hLe := Nat.le_trans hLe hSkipLe
    replace hLt (hConsumes) := Nat.lt_of_lt_of_le (hLt hConsumes) hSkipLe
    dsimp only
    rcases hSecondReading : second.read grammar.isBlank readRule bound mode
      (mode.skip grammar.isBlank next) later with ⟨last, _ | _⟩ <;>
      rw [hSecondReading] at hSecondTracks
    · exact hFirstTracks.seqSecond hLe hLt hSecondTracks fun _ => rfl
    · exact hFirstTracks.seqSecond hLe hLt hSecondTracks (absurd · (Option.some_ne_none _))

/-- A choice does what its form says if its expressions do. -/
theorem IsTracked.choice {first second : Expr R}
    (hFirst : IsTracked grammar rank habits kept text depth first
      (first.read grammar.isBlank readRule bound mode))
    (hSecond : IsTracked grammar rank habits kept text depth second
      (second.read grammar.isBlank readRule bound mode)) :
    IsTracked grammar rank habits kept text depth (.choice first second)
      ((Expr.choice first second).read grammar.isBlank readRule bound mode) := by
  intro cursor expected hStands hRoom
  have hFirstTracks := hFirst cursor expected hStands
    (hRoom.mono (Nat.le_refl _) (List.subset_append_left ..))
  rw [Expr.read]
  rcases hReading : first.read grammar.isBlank readRule bound mode cursor expected with
    ⟨later, _ | success⟩ <;> rw [hReading] at hFirstTracks
  · exact hFirstTracks.choiceSecond (hSecond cursor later hStands
      (hRoom.mono (Nat.le_refl _) (List.subset_append_right ..)))
  · refine .of_success (Option.some_ne_none _) hFirstTracks.grows fun hBare => ?_
    rw [Expr.isBare, Bool.and_eq_true] at hBare
    exact hFirstTracks.bare hBare.1

theorem IsTracked.optional {body : Expr R}
    (hBody : IsTracked grammar rank habits kept text depth body
      (body.read grammar.isBlank readRule bound mode)) :
    IsTracked grammar rank habits kept text depth (.optional body)
      ((Expr.optional body).read grammar.isBlank readRule bound mode) := by
  intro cursor expected hStands hRoom
  have hTracks := hBody cursor expected hStands
    (hRoom.mono (Nat.le_refl _) (List.Subset.refl _))
  rw [Expr.read]
  rcases hReading : body.read grammar.isBlank readRule bound mode cursor expected with
    ⟨later, _ | success⟩ <;> rw [hReading] at hTracks
  · exact .of_success (Option.some_ne_none _) hTracks.grows hTracks.bare
  · exact .of_success (Option.some_ne_none _) hTracks.grows hTracks.bare

/-- Further rounds of an expression. -/
theorem IsTracked.again (hRanked : Ranked grammar rank habits.consuming) {body : Expr R}
    {reader : Reader R} (hAgrees : Agrees grammar rank habits.consuming text depth body mode reader)
    (hReader : IsTracked grammar rank habits kept text depth body reader)
    (hConsumes : body.consumes habits.consuming = true) (tries : Nat) (found : List (Node R))
    (cursor : Cursor) (expected : Expected R) (hStands : cursor.StandsIn text)
    (hRoom : HasRoom grammar rank habits.consuming depth body cursor.rest) :
    Grows kept cursor.offset expected
      (repeatReader (mode.skip grammar.isBlank) reader tries found cursor expected).expected := by
  induction tries generalizing found cursor expected with
  | zero => exact .refl _ _
  | succ tries ih =>
    obtain ⟨hSkipRest, hSkipStands⟩ := mode.skip_standsIn grammar.isBlank hStands
    have hSkipLe := mode.offset_le_skip grammar.isBlank cursor
    have hGapLe := mode.length_behindGap_le grammar.isBlank cursor.rest
    have hSkipRoom : HasRoom grammar rank habits.consuming depth body
        (mode.skip grammar.isBlank cursor).rest :=
      hRoom.mono (by rwa [hSkipRest]) (List.Subset.refl _)
    have hTracks := hReader _ expected hSkipStands hSkipRoom
    rw [repeatReader]
    rcases hReading : reader (mode.skip grammar.isBlank cursor) expected with
      ⟨later, _ | ⟨nodes, next⟩⟩ <;> rw [hReading] at hTracks
    · exact hTracks.grows.mono hSkipLe
    · obtain ⟨pieces, hReads, hNextStands, hLe, -⟩ :=
        hAgrees.exists_next hRanked hSkipStands hSkipRoom hReading
      have hShorter := hRanked.length_lt hReads hConsumes
      have hAgain := ih (nodes.reverse ++ found) next later hNextStands
        (hSkipRoom.of_shorter hRanked hShorter)
      exact (hTracks.grows.mono hSkipLe).trans (hAgain.mono (Nat.le_trans hSkipLe hLe))

/-- A repetition does what its form says if its rounds do. -/
theorem IsTracked.many (hRanked : Ranked grammar rank habits.consuming) {body : Expr R}
    (hAgrees : Agrees grammar rank habits.consuming text depth body mode
      (body.read grammar.isBlank readRule bound mode))
    (hBody : IsTracked grammar rank habits kept text depth body
      (body.read grammar.isBlank readRule bound mode))
    (hConsumes : body.consumes habits.consuming = true) :
    IsTracked grammar rank habits kept text depth (.many body)
      ((Expr.many body).read grammar.isBlank readRule bound mode) := by
  intro cursor expected hStands hRoom
  have hBodyRoom : HasRoom grammar rank habits.consuming depth body cursor.rest :=
    hRoom.mono (Nat.le_refl _) (List.Subset.refl _)
  have hTracks := hBody cursor expected hStands hBodyRoom
  rw [Expr.read]
  rcases hReading : body.read grammar.isBlank readRule bound mode cursor expected with
    ⟨later, _ | ⟨nodes, next⟩⟩ <;> rw [hReading] at hTracks
  · exact .of_success (Option.some_ne_none _) hTracks.grows hTracks.bare
  · obtain ⟨pieces, hReads, hNextStands, hLe, hLt⟩ :=
      hAgrees.exists_next hRanked hStands hBodyRoom hReading
    have hShorter := hRanked.length_lt hReads hConsumes
    have hAgain := IsTracked.again hRanked hAgrees hBody hConsumes bound nodes.reverse next later
      hNextStands (hBodyRoom.of_shorter hRanked hShorter)
    refine .of_success (repeatReader_ne_none _ _ _ _ _ _) (hTracks.grows.trans (hAgain.mono hLe)) ?_
    exact fun hBare => (hTracks.bare hBare).trans hAgain (hAgain.spared (hLt hConsumes))

theorem IsTracked.unless {body : Expr R}
    (hRule : ∀ rule mode cursor expected, mode.records = false →
      (readRule rule mode cursor expected).expected = expected) :
    IsTracked grammar rank habits kept text depth (.unless body)
      ((Expr.unless body).read grammar.isBlank readRule bound mode) := by
  intro cursor expected _ _
  have hBody : (body.read grammar.isBlank readRule bound { mode with records := false } cursor
      expected).expected = expected := body.expected_read hRule rfl cursor expected
  rw [Expr.read]
  rcases hReading : body.read grammar.isBlank readRule bound { mode with records := false } cursor
    expected with ⟨later, _ | success⟩ <;> rw [hReading] at hBody
  · exact .leaf rfl rfl hBody
  · exact .leaf rfl rfl hBody

/-- Reading an expression does what its form says if the way to read rules does. -/
theorem IsTracked.read (hRanked : Ranked grammar rank habits.consuming)
    (hAgrees : ∀ rule mode, Agrees grammar rank habits.consuming text depth (.rule rule) mode
      (readRule rule mode))
    (hQuiet : ∀ rule mode cursor expected, mode.records = false →
      (readRule rule mode cursor expected).expected = expected)
    (hRule : ∀ rule mode, habits.known rule = true → mode.records = true →
      IsTracked grammar rank habits kept text depth (.rule rule) (readRule rule mode))
    (hBound : text.length < bound) (expr : Expr R) (hMode : mode.records = true)
    (hKnown : expr.within habits.known = true)
    (hRounds : expr.roundsConsume habits.consuming = true) :
    IsTracked grammar rank habits kept text depth expr
      (expr.read grammar.isBlank readRule bound mode) := by
  induction expr with
  | literal | word | oneOf =>
    exact fun cursor expected _ _ => .leaf rfl rfl (Reading.ofCursor?_expected ..)
  | atStart | atEnd =>
    intro cursor expected _ _
    rw [Expr.read]
    split <;> exact .leaf rfl rfl rfl
  | rule rule => exact hRule rule mode hKnown hMode
  | seq first second ihFirst ihSecond =>
    rw [Expr.within, Bool.and_eq_true] at hKnown
    rw [Expr.roundsConsume, Bool.and_eq_true] at hRounds
    exact .seq hRanked (Agrees.read hRanked hAgrees hBound first mode hRounds.1)
      (ihFirst hKnown.1 hRounds.1) (ihSecond hKnown.2 hRounds.2)
  | choice first second ihFirst ihSecond =>
    rw [Expr.within, Bool.and_eq_true] at hKnown
    rw [Expr.roundsConsume, Bool.and_eq_true] at hRounds
    exact .choice (ihFirst hKnown.1 hRounds.1) (ihSecond hKnown.2 hRounds.2)
  | optional body ih => exact .optional (ih hKnown hRounds)
  | many body ih =>
    rw [Expr.roundsConsume, Bool.and_eq_true] at hRounds
    exact .many hRanked (Agrees.read hRanked hAgrees hBound body mode hRounds.2)
      (ih hKnown hRounds.2) hRounds.1
  | «unless» body => exact .unless hQuiet

end Readers

section Rules

variable {grammar : Grammar R} {rank : R → Nat} {habits : Habits R}

/-- The failure of a rule that shows its matches is noted, or something else is expected already. -/
theorem Tracks.record {kept : R → Bool} {rule : R} {cursor : Cursor} {expected : Expected R}
    {reading : Reading R} (hBare : habits.bare rule = false)
    (hGrows : Grows kept cursor.offset expected reading.expected)
    (hKept : reading.result = none →
      kept rule = true ∨ Marked cursor.offset expected reading.expected) :
    Tracks habits kept (.rule rule) cursor.offset expected
      (reading.record rule cursor (expected.countAt cursor.offset)) := by
  have hNotBare {P : Prop} (h : (Expr.rule rule).isBare habits = true) : P := by
    rw [Expr.isBare, hBare] at h
    cases h
  rcases reading with ⟨later, _ | ⟨nodes, stop⟩⟩
  · obtain ⟨hNoted, hMarked⟩ := hGrows.note (hKept rfl)
    exact ⟨hNoted, hNotBare, fun _ _ => hMarked.offset_le, fun _ _ => hMarked⟩
  · exact .of_success (Option.some_ne_none _) hGrows hNotBare

end Rules

end RowFilter.Grammar
