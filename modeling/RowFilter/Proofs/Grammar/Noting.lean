import RowFilter.Proofs.Grammar.Ranked

/-! How what is expected grows while a text is read. What is read at an offset
leaves what is expected alone or moves it there or behind it, and a rule that
fails is noted unless one rule alone was added at its place, or something is
expected behind it. Where failures are not recorded nothing changes. -/

namespace RowFilter.Grammar

variable {R : Type}

/-- As many rules are expected at an offset as before, or something is expected behind it. -/
def Spared (offset : Nat) (expected later : Expected R) : Prop :=
  later.countAt offset = expected.countAt offset ∨ offset < later.offset

/-- One rule more is expected at an offset than before, or something is expected behind it. -/
def Marked (offset : Nat) (expected later : Expected R) : Prop :=
  later.countAt offset = expected.countAt offset + 1 ∨ offset < later.offset

/-- What reading at an offset, or behind it, makes of what was expected before. -/
structure Grows (kept : R → Bool) (offset : Nat) (expected later : Expected R) : Prop where
  offset_le : expected.offset ≤ later.offset
  length_le : expected.offset = later.offset → expected.rules.length ≤ later.rules.length
  kept : (∀ rule ∈ expected.rules, kept rule = true) → ∀ rule ∈ later.rules, kept rule = true
  stays : later = expected ∨ offset ≤ later.offset

namespace Grows

variable {kept : R → Bool} {offset other : Nat} {expected later last : Expected R}

theorem refl (offset : Nat) (expected : Expected R) : Grows kept offset expected expected :=
  ⟨Nat.le_refl _, fun _ => Nat.le_refl _, id, .inl rfl⟩

theorem of_eq (h : later = expected) : Grows kept offset expected later :=
  h ▸ refl offset later

theorem trans (hFirst : Grows kept offset expected later) (hSecond : Grows kept offset later last) :
    Grows kept offset expected last := by
  have hFirstLe := hFirst.offset_le
  have hSecondLe := hSecond.offset_le
  refine ⟨Nat.le_trans hFirstLe hSecondLe, fun hEq => ?_, hSecond.kept ∘ hFirst.kept, ?_⟩
  · exact Nat.le_trans (hFirst.length_le (by omega)) (hSecond.length_le (by omega))
  · rcases hSecond.stays with rfl | hLe
    · exact hFirst.stays
    · exact .inr hLe

/-- What happens behind an offset happens behind an earlier one. -/
theorem mono (h : Grows kept other expected later) (hLe : offset ≤ other) :
    Grows kept offset expected later :=
  ⟨h.offset_le, h.length_le, h.kept, h.stays.imp_right (Nat.le_trans hLe)⟩

/-- No more was expected at a place than is expected there in the end. -/
theorem countAt_le (h : Grows kept offset expected later) :
    expected.countAt later.offset ≤ later.rules.length := by
  rw [Expected.countAt]
  split
  · next hSame => exact h.length_le hSame.symm
  · exact Nat.zero_le _

/-- Reading behind an offset spares what is expected there. -/
theorem spared (h : Grows kept other expected later) (hLt : offset < other) :
    Spared offset expected later := by
  rcases h.stays with rfl | hLe
  · exact .inl rfl
  · exact .inr (Nat.lt_of_lt_of_le hLt hLe)

end Grows

section Marks

variable {kept : R → Bool} {offset other : Nat} {expected later last : Expected R}

/-- An offset that two readings spare is spared by both together. -/
theorem Spared.trans (hFirst : Spared offset expected later)
    (hGrows : Grows kept other later last) (hSecond : Spared offset later last) :
    Spared offset expected last := by
  rcases hFirst with hCount | hLt
  · exact hSecond.imp_left (·.trans hCount)
  · exact .inr (Nat.lt_of_lt_of_le hLt hGrows.offset_le)

/-- An offset that one reading spares and the next one marks is marked by both together. -/
theorem Spared.marked (hFirst : Spared offset expected later)
    (hGrows : Grows kept other later last) (hSecond : Marked offset later last) :
    Marked offset expected last := by
  rcases hFirst with hCount | hLt
  · exact hSecond.imp_left (hCount ▸ ·)
  · exact .inr (Nat.lt_of_lt_of_le hLt hGrows.offset_le)

/-- Something is expected at a marked offset or behind it. -/
theorem Marked.offset_le (h : Marked offset expected later) : offset ≤ later.offset := by
  rcases h with hCount | hLt
  · by_cases hSame : offset = later.offset
    · exact Nat.le_of_eq hSame
    · rw [Expected.countAt, if_neg hSame] at hCount
      cases hCount
  · exact Nat.le_of_lt hLt

/-- A rule is not noted where its body has seen to what is expected. -/
theorem Marked.note_eq (h : Marked offset expected later) (rule : R) :
    later.note rule offset (expected.countAt offset) = later := by
  rw [Expected.note]
  split
  · rfl
  · next hCount => exact if_pos (h.resolve_left hCount)

/-- Noting a rule that fails leaves one rule more expected at its place than before the rule was
tried, or something behind it. -/
theorem Grows.note (h : Grows kept offset expected later) {rule : R}
    (hKept : kept rule = true ∨ Marked offset expected later) :
    Grows kept offset expected (later.note rule offset (expected.countAt offset)) ∧
      Marked offset expected (later.note rule offset (expected.countAt offset)) := by
  by_cases hMarked : Marked offset expected later
  · rw [hMarked.note_eq]
    exact ⟨h, hMarked⟩
  have hRule : kept rule = true := hKept.resolve_right hMarked
  obtain ⟨hCount, hNotLt⟩ := not_or.1 hMarked
  have hLe := h.offset_le
  rw [Expected.note, if_neg hCount, if_neg hNotLt]
  split
  -- What the body added here gives way to the rule.
  · next hSame =>
    subst hSame
    have hBefore := h.countAt_le
    have hLength : (later.rules.take (expected.countAt later.offset) ++ [rule]).length =
        expected.countAt later.offset + 1 := by
      rw [List.length_append, List.length_take_of_le hBefore, List.length_singleton]
    refine ⟨⟨hLe, fun hEq => ?_, fun hExpected => ?_, .inr (Nat.le_refl _)⟩, .inl ?_⟩
    · have hAll : expected.countAt later.offset = expected.rules.length := if_pos hEq.symm
      rw [hLength, hAll]
      exact Nat.le_succ _
    · refine List.forall_mem_append.2 ⟨fun other hOther => ?_, List.forall_mem_singleton.2 hRule⟩
      exact h.kept hExpected other (List.mem_of_mem_take hOther)
    · rw [Expected.countAt, if_pos rfl, hLength]
  -- All that was expected stands in front of the rule and gives way to it.
  · next hNe =>
    have hBefore : expected.offset < offset := by omega
    have hNone : expected.countAt offset = 0 := if_neg (Nat.ne_of_gt hBefore)
    refine ⟨⟨Nat.le_of_lt hBefore, fun hEq => absurd hEq (Nat.ne_of_lt hBefore), fun _ => ?_,
      .inr (Nat.le_refl _)⟩, .inl ?_⟩
    · exact List.forall_mem_singleton.2 hRule
    · rw [hNone, Expected.countAt, if_pos rfl, List.length_singleton]

end Marks

/-- A repetition never fails. -/
theorem repeatReader_ne_none (skip : Cursor → Cursor) (reader : Reader R) (tries : Nat)
    (found : List (Node R)) (cursor : Cursor) (expected : Expected R) :
    (repeatReader skip reader tries found cursor expected).result ≠ none := by
  induction tries generalizing found cursor expected with
  | zero => nofun
  | succ tries ih =>
    rw [repeatReader]
    rcases reader (skip cursor) expected with ⟨later, _ | ⟨nodes, next⟩⟩
    · nofun
    · exact ih _ _ _

section Quiet

/-- Further rounds of what notes nothing note nothing. -/
theorem expected_repeatReader {skip : Cursor → Cursor} {reader : Reader R}
    (hReader : ∀ cursor expected, (reader cursor expected).expected = expected) (tries : Nat)
    (found : List (Node R)) (cursor : Cursor) (expected : Expected R) :
    (repeatReader skip reader tries found cursor expected).expected = expected := by
  induction tries generalizing found cursor with
  | zero => rfl
  | succ tries ih =>
    have hRound := hReader (skip cursor) expected
    rw [repeatReader]
    rcases hReading : reader (skip cursor) expected with ⟨later, _ | ⟨nodes, next⟩⟩ <;>
      rw [hReading] at hRound <;> subst hRound
    · rfl
    · exact ih ..

variable {isBlank : Char → Bool} {readRule : R → Mode → Reader R} {bound : Nat}

/-- Nothing is noted where failures are not recorded. -/
theorem Expr.expected_read (hRule : ∀ rule mode cursor expected, mode.records = false →
      (readRule rule mode cursor expected).expected = expected)
    (expr : Expr R) {mode : Mode} (hMode : mode.records = false) (cursor : Cursor)
    (expected : Expected R) :
    (expr.read isBlank readRule bound mode cursor expected).expected = expected := by
  induction expr generalizing mode cursor expected with
  | literal | word | oneOf => exact Reading.ofCursor?_expected ..
  | atStart | atEnd =>
    rw [Expr.read]
    split <;> rfl
  | rule rule => exact hRule rule mode cursor expected hMode
  | seq first second ihFirst ihSecond =>
    have hFirst := ihFirst hMode cursor expected
    rw [Expr.read]
    rcases hReading : first.read isBlank readRule bound mode cursor expected with
      ⟨later, _ | ⟨nodes, next⟩⟩ <;> rw [hReading] at hFirst <;> subst hFirst
    · rfl
    · have hSecond := ihSecond hMode (mode.skip isBlank next) later
      dsimp only
      rcases hReading : second.read isBlank readRule bound mode (mode.skip isBlank next) later with
        ⟨last, _ | _⟩ <;> rw [hReading] at hSecond <;> exact hSecond
  | choice first second ihFirst ihSecond =>
    have hFirst := ihFirst hMode cursor expected
    rw [Expr.read]
    rcases hReading : first.read isBlank readRule bound mode cursor expected with
      ⟨later, _ | _⟩ <;> rw [hReading] at hFirst <;> subst hFirst
    · exact ihSecond hMode cursor later
    · rfl
  | optional body ih =>
    have hBody := ih hMode cursor expected
    rw [Expr.read]
    rcases hReading : body.read isBlank readRule bound mode cursor expected with
      ⟨later, _ | _⟩ <;> rw [hReading] at hBody <;> exact hBody
  | many body ih =>
    have hBody := ih hMode cursor expected
    rw [Expr.read]
    rcases hReading : body.read isBlank readRule bound mode cursor expected with
      ⟨later, _ | ⟨nodes, next⟩⟩ <;> rw [hReading] at hBody <;> subst hBody
    · rfl
    · exact expected_repeatReader (ih hMode) ..
  | «unless» body ih =>
    have hBody : (body.read isBlank readRule bound { mode with records := false } cursor
        expected).expected = expected := ih rfl cursor expected
    rw [Expr.read]
    rcases hReading : body.read isBlank readRule bound { mode with records := false } cursor
      expected with ⟨later, _ | _⟩ <;> rw [hReading] at hBody <;> exact hBody

end Quiet

end RowFilter.Grammar
