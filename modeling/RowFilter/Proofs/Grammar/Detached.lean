import RowFilter.Proofs.Grammar.Resumption

/-! What was read, cut out of its text. An expression detaches if what it reads
is read alike, piece by piece, in front of any other text that begins with a gap
or like the text that stood there. A rule of characters may need something of
the other text, and what is read behind the rule has to fulfil that need. -/

namespace RowFilter.Grammar

open Text

variable {R : Type}

/-- What is read of texts up to a length is read alike in front of all texts that fulfil a need. -/
def Detaches (grammar : Grammar R) (bound : Nat) (expr : Expr R) (need : List Char → Prop) : Prop :=
  ∀ ⦃length : Nat⦄ (other : Nat) ⦃text rest behind : List Char⦄ ⦃pieces : List (Piece R)⦄,
    text.length ≤ bound → Mode.initial.behindGap grammar.isBlank text = text →
    Reads grammar length (.once expr) .initial text (some (pieces, rest)) →
    BeginsLike grammar.isBlank rest behind →
    need (Mode.initial.behindGap grammar.isBlank behind) →
    Reads grammar other (.once expr) .initial (Piece.textOf pieces ++ behind)
      (some (pieces, behind))

/-- The gap in front of a text that goes on is the same in front of all texts that begin like it. -/
theorem Mode.gap_and_behindGap_append {isBlank : Char → Bool} {middle taken rest : List Char}
    (h : Mode.initial.behindGap isBlank middle = taken ++ rest) (hTaken : taken ≠ [])
    (behind : List Char) :
    Mode.initial.gap isBlank (Mode.initial.gap isBlank middle ++ (taken ++ behind)) =
        Mode.initial.gap isBlank middle ∧
      Mode.initial.behindGap isBlank (Mode.initial.gap isBlank middle ++ (taken ++ behind)) =
        taken ++ behind := by
  have hStops : StopsAt isBlank (middle.dropWhile isBlank) := stopsAt_dropWhile middle
  change middle.dropWhile isBlank = taken ++ rest at h
  rw [h] at hStops
  have hBehind := hStops.append_of_ne_nil hTaken behind
  have hBlanks : ∀ c ∈ middle.takeWhile isBlank, isBlank c = true := fun _ => of_mem_takeWhile
  exact ⟨hBehind.takeWhile_append hBlanks, hBehind.dropWhile_append hBlanks⟩

namespace Detaches

variable {grammar : Grammar R} {bound : Nat} {expr first second : Expr R}
  {need inner : List Char → Prop} {rank : R → Nat} {consuming : R → Bool}

/-- A rule detaches if its body does. -/
theorem rule {rule : R} (h : Detaches grammar bound (grammar.body rule) need)
    (hInside : (grammar.kind rule).inside .initial = .initial) :
    Detaches grammar bound (.rule rule) need := by
  intro length other text rest behind pieces hText hGap hReads hBehind hNeed
  obtain ⟨parts, hParts, rfl⟩ := hReads.of_rule
  rw [hInside] at hParts
  have hBody := h other hText hGap hParts hBehind hNeed
  rw [← hInside] at hBody
  have hTaken : Piece.textOf (if grammar.shows rule .initial then [.shown rule parts] else parts) =
      Piece.textOf parts := by
    split <;> simp
  rw [hTaken]
  exact .rule_some hBody

private theorem seq_of_first {secondBound length other : Nat} {middle rest behind : List Char}
    {parts others : List (Piece R)} (hRanked : Ranked grammar rank consuming)
    (hSecond : Detaches grammar secondBound second need)
    (hConsumes : second.consumes consuming = true) (hMiddle : middle.length ≤ secondBound)
    (hReads : Reads grammar length (.once second) .initial
      (Mode.initial.behindGap grammar.isBlank middle) (some (others, rest)))
    (hBehind : BeginsLike grammar.isBlank rest behind)
    (hNeed : need (Mode.initial.behindGap grammar.isBlank behind))
    (hFirst : ∀ onward, BeginsLike grammar.isBlank middle onward →
      Mode.initial.gap grammar.isBlank onward = Mode.initial.gap grammar.isBlank middle →
      Reads grammar other (.once second) .initial
        (Mode.initial.behindGap grammar.isBlank onward) (some (others, behind)) →
      Reads grammar other (.once first) .initial (Piece.textOf parts ++ onward)
        (some (parts, onward))) :
    Reads grammar other (.once (.seq first second)) .initial
      (Piece.textOf (parts ++ Piece.chars (Mode.initial.gap grammar.isBlank middle) ++ others) ++
        behind)
      (some (parts ++ Piece.chars (Mode.initial.gap grammar.isBlank middle) ++ others, behind)) := by
  -- The second expression takes a character, so the gap in front of it stays as it is. What is
  -- left to show is that the first one is read alike in front of that gap.
  have hGapLe := Mode.initial.length_behindGap_le grammar.isBlank middle
  have hMore := hSecond other (Nat.le_trans hGapLe hMiddle) (Mode.behindGap_idem ..) hReads
    hBehind hNeed
  obtain ⟨hSameGap, hSameRest⟩ := Mode.gap_and_behindGap_append hReads.text_eq
    (hRanked.textOf_ne_nil hReads hConsumes) behind
  have hLike := (hBehind.append (Piece.textOf others)).append
    (Mode.initial.gap grammar.isBlank middle)
  rw [← hReads.text_eq, Mode.gap_append_behindGap] at hLike
  rw [← hSameRest] at hMore
  have hSeq := Reads.seq (hFirst _ hLike hSameGap hMore) hMore
  rw [hSameGap] at hSeq
  simpa only [Piece.textOf_append, Piece.textOf_chars, List.append_assoc] using hSeq

/-- A sequence detaches if its expressions do. -/
theorem seq {secondBound : Nat} (hRanked : Ranked grammar rank consuming)
    (hFirst : Detaches grammar bound first inner) (hSecond : Detaches grammar secondBound second need)
    (hBegins : Begins grammar .initial second inner) (hConsumes : second.consumes consuming = true)
    (hBound : bound ≤ secondBound + if first.consumes consuming = true then 1 else 0) :
    Detaches grammar bound (.seq first second) need := by
  intro length other text rest behind pieces hText hGap hReads hBehind hNeed
  obtain ⟨parts, middle, others, hFirstReads, hSecondReads, rfl⟩ := hReads.of_seq
  have hMiddle := hRanked.length_le_of_bound hFirstReads hText hBound
  apply seq_of_first hRanked hSecond hConsumes hMiddle hSecondReads hBehind hNeed
  intro onward hLike _ hMore
  exact hFirst other hText hGap hFirstReads hLike (hBegins hMore)

/-- A choice detaches if its expressions do and the second one excludes the first one. -/
theorem choice (hFirst : Detaches grammar bound first need)
    (hSecond : Detaches grammar bound second need)
    (hExcludes : Excludes grammar .initial second first) :
    Detaches grammar bound (.choice first second) need := by
  intro length other text rest behind pieces hText hGap hReads hBehind hNeed
  rcases hReads.of_choice with h | ⟨-, h⟩
  · exact .choiceFirst (hFirst other hText hGap h hBehind hNeed)
  · have hMore := hSecond other hText hGap h hBehind hNeed
    exact .choiceSecond (hExcludes hMore) hMore

private theorem again (hRanked : Ranked grammar rank consuming)
    (hBody : Detaches grammar bound expr fun _ => True) (hConsumes : expr.consumes consuming = true)
    {length other : Nat} {text rest behind : List Char} {pieces : List (Piece R)}
    (h : Reads grammar length (.again expr) .initial text (some (pieces, rest)))
    (hText : text.length ≤ bound) (hBehind : BeginsLike grammar.isBlank rest behind)
    (hFails : Reads grammar other (.once expr) .initial
      (Mode.initial.behindGap grammar.isBlank behind) none) :
    Reads grammar other (.again expr) .initial (Piece.textOf pieces ++ behind)
      (some (pieces, behind)) := by
  generalize hTask : Task.again expr = task at h
  generalize hMode : Mode.initial = mode at h
  generalize hOutcome : some (pieces, rest) = outcome at h
  induction h generalizing pieces with
  | againNone =>
    cases hTask
    cases hOutcome
    subst hMode
    exact .againNone hFails
  | @again _ mode text middle _ parts others hRound hAgain _ ih =>
    cases hTask
    cases hOutcome
    subst hMode
    have hGapLe := Mode.initial.length_behindGap_le grammar.isBlank text
    have hRoundLe := hRound.length_le
    have hMore := ih (by omega) rfl rfl rfl
    have hLike := hBehind.append (Piece.textOf others)
    rw [← hAgain.text_eq] at hLike
    have hStart := hBody other (Nat.le_trans hGapLe hText) (Mode.behindGap_idem ..) hRound hLike
      trivial
    obtain ⟨hSameGap, hSameRest⟩ := Mode.gap_and_behindGap_append hRound.text_eq
      (hRanked.textOf_ne_nil hRound hConsumes) (Piece.textOf others ++ behind)
    rw [← hSameRest] at hStart
    have hRounds := Reads.again hStart hMore
    rw [hSameGap] at hRounds
    simpa only [Piece.textOf_append, Piece.textOf_chars, List.append_assoc] using hRounds
  | _ => cases hTask

/-- A repetition in front of an expression that is read where no further round is. -/
theorem many_seq (hRanked : Ranked grammar rank consuming)
    (hBody : Detaches grammar bound expr fun _ => True) (hLast : Detaches grammar bound second need)
    (hBodyConsumes : expr.consumes consuming = true) (hConsumes : second.consumes consuming = true)
    (hExcludes : Excludes grammar .initial second expr) :
    Detaches grammar bound (.seq (.many expr) second) need := by
  intro length other text rest behind pieces hText hGap hReads hBehind hNeed
  obtain ⟨parts, middle, others, hMany, hLastReads, rfl⟩ := hReads.of_seq
  have hMiddle := Nat.le_trans hMany.length_le hText
  apply seq_of_first hRanked hLast hConsumes hMiddle hLastReads hBehind hNeed
  intro onward hLike hSameGap hMore
  have hFails := hExcludes hMore
  generalize hOutcome : some (parts, middle) = outcome at hMany
  cases hMany with
  | manyNone =>
    cases hOutcome
    -- No round was read, so no gap stands in front of the second expression.
    have hSplit := Mode.initial.gap_append_behindGap grammar.isBlank text
    have hOnward := Mode.initial.gap_append_behindGap grammar.isBlank onward
    rw [hGap] at hSplit
    rw [hSameGap, List.append_left_eq_self.1 hSplit, List.nil_append] at hOnward
    rw [hOnward] at hFails
    exact .manyNone hFails
  | @many _ _ _ stop _ round rounds hRound hAgain =>
    cases hOutcome
    have hRoundLe := hRound.length_le
    have hRounds := again hRanked hBody hBodyConsumes hAgain (by omega) hLike hFails
    have hRoundLike := hLike.append (Piece.textOf rounds)
    rw [← hAgain.text_eq] at hRoundLike
    have hFirst := hBody other hText hGap hRound hRoundLike trivial
    rw [Piece.textOf_append, List.append_assoc]
    exact .many hFirst hRounds

end Detaches

end RowFilter.Grammar
