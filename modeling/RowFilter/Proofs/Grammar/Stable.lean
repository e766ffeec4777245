import RowFilter.Proofs.Grammar.Locality
import RowFilter.Proofs.Text.Stops

/-! Texts that are written on. An expression is stable if it takes the same
pieces of a text once more text stands behind it. A choice is stable if its
alternatives are, and if the first one fails wherever the second one is read. -/

namespace RowFilter.Grammar

variable {R : Type}

/-- Texts up to a length are read alike in front of more text that begins with one of some
characters. -/
def Stable (grammar : Grammar R) (ends : List Char) (bound : Nat) (expr : Expr R) (mode : Mode) :
    Prop :=
  ∀ ⦃length : Nat⦄ (other : Nat) ⦃text rest behind : List Char⦄ ⦃pieces : List (Piece R)⦄,
    text.length ≤ bound → mode.behindGap grammar.isBlank text = text →
    (∀ c ∈ behind.head?, c ∈ ends) →
    Reads grammar length (.once expr) mode text (some (pieces, rest)) →
    Reads grammar other (.once expr) mode (text ++ behind) (some (pieces, rest ++ behind))

/-- Wherever an expression is read, another one fails. -/
def Excludes (grammar : Grammar R) (mode : Mode) (expr other : Expr R) : Prop :=
  ∀ ⦃length : Nat⦄ ⦃text rest : List Char⦄ ⦃pieces : List (Piece R)⦄,
    Reads grammar length (.once expr) mode text (some (pieces, rest)) →
    Reads grammar length (.once other) mode text none

variable {grammar : Grammar R} {mode : Mode} {expr first second other : Expr R}

section Gaps

variable {isBlank : Char → Bool} {text : List Char}

/-- The gap at the beginning of a text is the same in front of more text, if the text goes on
behind it. -/
theorem Mode.gap_append (h : mode.behindGap isBlank text ≠ []) (behind : List Char) :
    mode.gap isBlank (text ++ behind) = mode.gap isBlank text := by
  cases hMode : mode.skipsBlanks with
  | false => simp [gap, hMode]
  | true =>
    simp only [behindGap, hMode, if_true] at h
    simp only [gap, hMode, if_true, List.takeWhile_append]
    rw [if_neg]
    intro hLength
    have hSplit := congrArg List.length (List.takeWhile_append_dropWhile (p := isBlank) (l := text))
    rw [List.length_append, hLength] at hSplit
    exact h (List.length_eq_zero_iff.1 (by omega))

/-- A gap that ends within a text does not change with more text behind it. -/
theorem Mode.behindGap_append (h : mode.behindGap isBlank text ≠ []) (behind : List Char) :
    mode.behindGap isBlank (text ++ behind) = mode.behindGap isBlank text ++ behind := by
  cases hMode : mode.skipsBlanks with
  | false => simp [behindGap, hMode]
  | true =>
    simp only [behindGap, hMode, if_true] at h ⊢
    rw [List.dropWhile_append, if_neg (by simpa using h)]

/-- Nothing but a gap in front of a text adds to the gap at its beginning. -/
theorem Mode.behindGap_append_of_nil (h : mode.behindGap isBlank text = []) (behind : List Char) :
    mode.behindGap isBlank (text ++ behind) = mode.behindGap isBlank behind := by
  cases hMode : mode.skipsBlanks with
  | false =>
    simp only [behindGap, hMode, Bool.false_eq_true, if_false] at h
    rw [h, List.nil_append]
  | true =>
    simp only [behindGap, hMode, if_true] at h ⊢
    rw [List.dropWhile_append, if_pos (by simp [h])]

/-- No gap stands behind a gap. -/
theorem Mode.behindGap_idem (mode : Mode) (isBlank : Char → Bool) (text : List Char) :
    mode.behindGap isBlank (mode.behindGap isBlank text) = mode.behindGap isBlank text := by
  cases h : mode.skipsBlanks with
  | false => simp [behindGap, h]
  | true => simpa [behindGap, h] using (Text.stopsAt_dropWhile text).dropWhile_eq_self

/-- No rule turns skipping on. -/
theorem Kind.behindGap_inside (kind : Kind) (h : mode.behindGap isBlank text = text) :
    (kind.inside mode).behindGap isBlank text = text := by
  cases kind with
  | normal | silent => exact h
  | atomic | compound => rfl

end Gaps

namespace Reads

variable {length : Nat} {text rest : List Char} {pieces : List (Piece R)}

theorem of_literal {word : String}
    (h : Reads grammar length (.once (.literal word)) mode text (some (pieces, rest))) :
    pieces = Piece.chars word.toList ∧ text = word.toList ++ rest := by
  generalize hOutcome : some (pieces, rest) = outcome at h
  cases h
  obtain ⟨taken, hTaken, rfl⟩ := Outcome.ofTaken_eq_some.1 hOutcome.symm
  obtain ⟨rfl, hText⟩ := takeAll?_equal.1 hTaken
  exact ⟨rfl, hText⟩

theorem of_word {word : String}
    (h : Reads grammar length (.once (.word word)) mode text (some (pieces, rest))) :
    ∃ taken, takeAll? (word.toList.map sameLetter) text = some (taken, rest) ∧
      pieces = Piece.chars taken := by
  generalize hOutcome : some (pieces, rest) = outcome at h
  cases h
  exact Outcome.ofTaken_eq_some.1 hOutcome.symm

theorem literal_append (word : String) (rest : List Char) :
    Reads grammar length (.once (.literal word)) mode (word.toList ++ rest)
      (some (Piece.chars word.toList, rest)) := by
  have h : Reads grammar length (.once (.literal word)) mode (word.toList ++ rest) _ :=
    .literal word mode (word.toList ++ rest)
  rwa [takeAll?_equal.2 ⟨rfl, rfl⟩] at h

theorem rule_some {rule : R}
    (h : Reads grammar length (.once (grammar.body rule)) ((grammar.kind rule).inside mode) text
      (some (pieces, rest))) :
    Reads grammar length (.once (.rule rule)) mode text
      (some (if grammar.shows rule mode then [.shown rule pieces] else pieces, rest)) := by
  have hRule := Reads.rule h
  cases hShows : grammar.shows rule mode with
  | false => rwa [Outcome.ofBody, hShows] at hRule
  | true => rwa [Outcome.ofBody, hShows] at hRule

/-- A rule of given characters takes these. -/
theorem rule_literal {rule : R} {word : String} (hBody : grammar.body rule = .literal word) :
    Reads grammar length (.once (.rule rule)) mode text (some (pieces, rest)) ↔
      text = word.toList ++ rest ∧ pieces =
        if grammar.shows rule mode then [.shown rule (Piece.chars word.toList)]
        else Piece.chars word.toList := by
  constructor
  · intro h
    obtain ⟨parts, hParts, rfl⟩ := h.of_rule
    rw [hBody] at hParts
    obtain ⟨rfl, hText⟩ := hParts.of_literal
    exact ⟨hText, rfl⟩
  · rintro ⟨rfl, rfl⟩
    have hParts : Reads grammar length (.once (grammar.body rule)) ((grammar.kind rule).inside mode)
        (word.toList ++ rest) (some (Piece.chars word.toList, rest)) := by
      rw [hBody]
      exact .literal_append word rest
    exact .rule_some hParts

/-- What an atomic rule reads is what its body takes. -/
theorem rule_atomic {rule : R} (hKind : grammar.kind rule = .atomic) (hMode : mode.records = true) :
    Reads grammar length (.once (.rule rule)) mode text (some (pieces, rest)) ↔
      ∃ taken, Takes grammar length (grammar.body rule) text taken rest ∧
        pieces = [.shown rule (Piece.chars taken)] := by
  have hInside : (grammar.kind rule).inside mode = .atomic := by
    rw [hKind]
    rfl
  have hShows : grammar.shows rule mode = true := by simp [shows, hKind, hMode]
  constructor
  · intro h
    obtain ⟨parts, hBody, rfl⟩ := h.of_rule
    rw [hInside] at hBody
    rw [if_pos hShows, hBody.eq_chars rfl]
    exact ⟨_, hBody.takes, rfl⟩
  · rintro ⟨taken, hTakes, rfl⟩
    rw [Takes, ← hInside] at hTakes
    have hRule := Reads.rule_some hTakes
    rwa [hShows] at hRule

end Reads

/-- Characters that were taken are taken in front of any text. -/
theorem takeAll?_append_of_some {tests : List (Char → Bool)} {text taken rest : List Char}
    (h : takeAll? tests text = some (taken, rest)) (behind : List Char) :
    takeAll? tests (text ++ behind) = some (taken, rest ++ behind) := by
  induction tests generalizing text taken with
  | nil =>
    cases h
    rfl
  | cons test tests ih =>
    cases text with
    | nil => cases h
    | cons c text =>
      rw [takeAll?] at h
      split at h
      · next hTest =>
        obtain ⟨⟨others, stop⟩, hOthers, hEq⟩ := Option.map_eq_some_iff.1 h
        cases hEq
        rw [List.cons_append, takeAll?, if_pos hTest, ih hOthers, Option.map_some]
      · cases h

/-- Where a word stands, no word stands that differs from it in a letter. -/
theorem takeAll?_eq_none_of_differs {word other : List Char} {text taken rest : List Char}
    (h : takeAll? (word.map sameLetter) text = some (taken, rest))
    (hDiffers : (word.zip other).any (fun (a, b) => a.toLower ≠ b.toLower) = true) :
    takeAll? (other.map sameLetter) text = none := by
  induction word generalizing other text taken with
  | nil => cases hDiffers
  | cons a word ih =>
    cases other with
    | nil => cases hDiffers
    | cons b other =>
      cases text with
      | nil => rfl
      | cons c text =>
        rw [List.map_cons, takeAll?] at h ⊢
        split at h
        · next hSame =>
          obtain ⟨⟨others, stop⟩, hOthers, hEq⟩ := Option.map_eq_some_iff.1 h
          cases hEq
          split
          · next hOtherSame =>
            have hLower : a.toLower = b.toLower :=
              (of_decide_eq_true hSame).trans (of_decide_eq_true hOtherSame).symm
            rw [List.zip_cons_cons, List.any_cons, Bool.or_eq_true, decide_eq_true_eq] at hDiffers
            rw [ih hOthers (hDiffers.resolve_left (· hLower)), Option.map_none]
          · rfl
        · cases h

namespace Excludes

theorem choice_left (hFirst : Excludes grammar mode first other)
    (hSecond : Excludes grammar mode second other) :
    Excludes grammar mode (.choice first second) other := by
  intro length text rest pieces h
  rcases h.of_choice with h | ⟨-, h⟩
  · exact hFirst h
  · exact hSecond h

theorem choice_right (hFirst : Excludes grammar mode expr first)
    (hSecond : Excludes grammar mode expr second) :
    Excludes grammar mode expr (.choice first second) :=
  fun _ _ _ _ h => .choiceSecond (hFirst h) (hSecond h)

theorem seq_left (h : Excludes grammar mode first other) :
    Excludes grammar mode (.seq first second) other := by
  intro length text rest pieces hSeq
  obtain ⟨_, _, _, hFirst, -, -⟩ := hSeq.of_seq
  exact h hFirst

theorem seq_right (h : Excludes grammar mode expr first) :
    Excludes grammar mode expr (.seq first second) :=
  fun _ _ _ _ hExpr => .seqFirst (h hExpr)

/-- What follows the same beginning decides. -/
theorem seq_same (h : Excludes grammar mode second other) :
    Excludes grammar mode (.seq first second) (.seq first other) := by
  intro length text rest pieces hSeq
  obtain ⟨_, _, _, hFirst, hSecond, -⟩ := hSeq.of_seq
  exact .seqSecond hFirst (h hSecond)

/-- Rules exclude each other if their bodies do. -/
theorem rule {rule other : R} {inner : Mode} (hRule : (grammar.kind rule).inside mode = inner)
    (hOther : (grammar.kind other).inside mode = inner)
    (h : Excludes grammar inner (grammar.body rule) (grammar.body other)) :
    Excludes grammar mode (.rule rule) (.rule other) := by
  intro length text rest pieces hReads
  obtain ⟨_, hBody, -⟩ := hReads.of_rule
  rw [hRule] at hBody
  rw [Reads.rule_none, hOther]
  exact h hBody

/-- Words that differ in a letter exclude each other. -/
theorem word {word other : String}
    (h : (word.toList.zip other.toList).any (fun (a, b) => a.toLower ≠ b.toLower) = true) :
    Excludes grammar mode (.word word) (.word other) := by
  intro length text rest pieces hReads
  obtain ⟨taken, hTaken, -⟩ := hReads.of_word
  have hNone := takeAll?_eq_none_of_differs hTaken h
  have hOther : Reads grammar length (.once (.word other)) mode text _ := .word other mode text
  rwa [hNone] at hOther

theorem word_literal {word mark : String} {a c : Char} {others : List Char}
    (hWord : word.toList = a :: others) (hMark : mark.toList = [c]) (h : sameLetter a c = false) :
    Excludes grammar mode (.word word) (.literal mark) := by
  intro length text rest pieces hReads
  obtain ⟨taken, hTaken, -⟩ := hReads.of_word
  have hLiteral : Reads grammar length (.once (.literal mark)) mode text _ :=
    .literal mark mode text
  rw [hWord] at hTaken
  cases text with
  | nil => cases hTaken
  | cons d text =>
    rw [List.map_cons, takeAll?] at hTaken
    split at hTaken
    · next hSame =>
      have hOther : ¬(c = d) := by
        rintro rfl
        rw [h] at hSame
        cases hSame
      rwa [hMark, List.map_cons, takeAll?, if_neg (by simpa using hOther)] at hLiteral
    · cases hTaken

theorem literal_word {word other : String}
    (h : ∀ rest, takeAll? (other.toList.map sameLetter) (word.toList ++ rest) = none) :
    Excludes grammar mode (.literal word) (.word other) := by
  intro length text rest pieces hReads
  obtain ⟨-, rfl⟩ := hReads.of_literal
  have hOther : Reads grammar length (.once (.word other)) mode (word.toList ++ rest) _ :=
    .word other mode (word.toList ++ rest)
  rwa [h rest] at hOther

theorem literal {word other : String}
    (h : ∀ rest, takeAll? (other.toList.map fun a b => a = b) (word.toList ++ rest) = none) :
    Excludes grammar mode (.literal word) (.literal other) := by
  intro length text rest pieces hReads
  obtain ⟨-, rfl⟩ := hReads.of_literal
  have hOther : Reads grammar length (.once (.literal other)) mode (word.toList ++ rest) _ :=
    .literal other mode (word.toList ++ rest)
  rwa [h rest] at hOther

end Excludes

namespace Stable

variable {ends : List Char} {bound : Nat}

theorem literal {word : String} : Stable grammar ends bound (.literal word) mode := by
  intro length other text rest behind pieces _ _ _ h
  obtain ⟨rfl, rfl⟩ := h.of_literal
  rw [List.append_assoc]
  exact .literal_append word (rest ++ behind)

theorem word {word : String} : Stable grammar ends bound (.word word) mode := by
  intro length other text rest behind pieces _ _ _ h
  obtain ⟨taken, hTaken, rfl⟩ := h.of_word
  have hWord : Reads grammar other (.once (.word word)) mode (text ++ behind) _ :=
    .word word mode (text ++ behind)
  rwa [takeAll?_append_of_some hTaken] at hWord

/-- A rule is stable if its body is. -/
theorem rule {rule : R}
    (h : Stable grammar ends bound (grammar.body rule) ((grammar.kind rule).inside mode)) :
    Stable grammar ends bound (.rule rule) mode := by
  intro length other text rest behind pieces hBound hGap hBehind hReads
  obtain ⟨parts, hParts, rfl⟩ := hReads.of_rule
  exact .rule_some (h other hBound ((grammar.kind rule).behindGap_inside hGap) hBehind hParts)

/-- Inside an atomic rule it is enough to reject what stands behind the text. -/
theorem atomic {rejecting : R → Bool} (hRules : ∀ rule, rejecting rule = true →
      (grammar.body rule).rejects rejecting ends = true)
    (hRejects : expr.rejects rejecting ends = true) :
    Stable grammar ends bound expr .atomic :=
  fun _ other _ _ _ _ _ _ hBehind h => h.followedBy hRules hBehind other hRejects

/-- An atomic rule is stable if no test of it accepts what stands behind. -/
theorem atomic_rule {rejecting : R → Bool} (hRules : ∀ rule, rejecting rule = true →
      (grammar.body rule).rejects rejecting ends = true) {rule : R}
    (hRule : rejecting rule = true) (hKind : grammar.kind rule = .atomic) :
    Stable grammar ends bound (.rule rule) mode := by
  apply Stable.rule
  rw [hKind]
  exact .atomic hRules (hRules rule hRule)

/-- The second expression takes a character, so the gap in front of it stays as it is. -/
theorem seq {rank : R → Nat} {consuming : R → Bool} {secondBound : Nat}
    (hRanked : Ranked grammar rank consuming) (hFirst : Stable grammar ends bound first mode)
    (hSecond : Stable grammar ends secondBound second mode)
    (hConsumes : second.consumes consuming = true)
    (hBound : bound ≤ secondBound + if first.consumes consuming = true then 1 else 0) :
    Stable grammar ends bound (.seq first second) mode := by
  intro length other text rest behind pieces hText hGap hBehind h
  obtain ⟨parts, stop, others, hFirstReads, hSecondReads, rfl⟩ := h.of_seq
  have hNonempty := hRanked.text_ne_nil hSecondReads hConsumes
  have hStop := hRanked.length_le_of_bound hFirstReads hText hBound
  have hGapLe := mode.length_behindGap_le grammar.isBlank stop
  have hFirstMore := hFirst other hText hGap hBehind hFirstReads
  have hSecondMore := hSecond other (Nat.le_trans hGapLe hStop)
    (mode.behindGap_idem grammar.isBlank stop) hBehind hSecondReads
  rw [← Mode.behindGap_append hNonempty] at hSecondMore
  rw [← Mode.gap_append hNonempty behind]
  exact .seq hFirstMore hSecondMore

/-- A choice is stable if its second expression excludes the first one. -/
theorem choice (hFirst : Stable grammar ends bound first mode)
    (hSecond : Stable grammar ends bound second mode)
    (hExcludes : Excludes grammar mode second first) :
    Stable grammar ends bound (.choice first second) mode := by
  intro length other text rest behind pieces hText hGap hBehind h
  rcases h.of_choice with h | ⟨-, h⟩
  · exact .choiceFirst (hFirst other hText hGap hBehind h)
  · have hMore := hSecond other hText hGap hBehind h
    exact .choiceSecond (hExcludes hMore) hMore

private theorem again_append (hBody : Stable grammar ends bound expr mode) {length other : Nat}
    {text rest behind : List Char} {pieces : List (Piece R)}
    (h : Reads grammar length (.again expr) mode text (some (pieces, rest)))
    (hText : text.length ≤ bound) (hBehind : ∀ c ∈ behind.head?, c ∈ ends)
    (hRest : mode.behindGap grammar.isBlank rest ≠ [])
    (hFails : Reads grammar other (.once expr) mode (mode.behindGap grammar.isBlank rest ++ behind)
      none) :
    Reads grammar other (.again expr) mode (text ++ behind) (some (pieces, rest ++ behind)) := by
  generalize hTask : Task.again expr = task at h
  generalize hOutcome : some (pieces, rest) = outcome at h
  induction h generalizing pieces with
  | againNone =>
    cases hTask
    cases hOutcome
    rw [← Mode.behindGap_append hRest] at hFails
    exact .againNone hFails
  | @again _ mode text _ _ parts others hBodyReads hAgain _ ihAgain =>
    cases hTask
    cases hOutcome
    have hGapLe := mode.length_behindGap_le grammar.isBlank text
    have hBodyLe := hBodyReads.length_le
    have hNonempty : mode.behindGap grammar.isBlank text ≠ [] := by
      intro hNil
      have hAgainLe := hAgain.length_le
      have hRestLe := mode.length_behindGap_le grammar.isBlank rest
      rw [hNil, List.length_nil] at hBodyLe
      exact hRest (List.eq_nil_of_length_eq_zero (by omega))
    have hRound := hBody other (Nat.le_trans hGapLe hText)
      (mode.behindGap_idem grammar.isBlank text) hBehind hBodyReads
    rw [← Mode.behindGap_append hNonempty] at hRound
    rw [← Mode.gap_append hNonempty behind]
    exact .again hRound (ihAgain hBody (by omega) hRest hFails rfl rfl)
  | _ => cases hTask

/-- A repetition in front of an expression that is read where no further round is. -/
theorem many_seq {rank : R → Nat} {consuming : R → Bool} (hRanked : Ranked grammar rank consuming)
    (hBody : Stable grammar ends bound expr mode) (hLast : Stable grammar ends bound second mode)
    (hConsumes : second.consumes consuming = true) (hExcludes : Excludes grammar mode second expr) :
    Stable grammar ends bound (.seq (.many expr) second) mode := by
  intro length other text rest behind pieces hText hGap hBehind h
  obtain ⟨parts, stop, others, hMany, hLastReads, rfl⟩ := h.of_seq
  have hNonempty := hRanked.text_ne_nil hLastReads hConsumes
  have hStopLe := hMany.length_le
  have hGapLe := mode.length_behindGap_le grammar.isBlank stop
  have hLastMore := hLast other (Nat.le_trans hGapLe (Nat.le_trans hStopLe hText))
    (mode.behindGap_idem grammar.isBlank stop) hBehind hLastReads
  have hManyMore : Reads grammar other (.once (.many expr)) mode (text ++ behind)
      (some (parts, stop ++ behind)) := by
    generalize hOutcome : some (parts, stop) = outcome at hMany
    cases hMany with
    | manyNone =>
      cases hOutcome
      rw [hGap] at hLastMore
      exact .manyNone (hExcludes hLastMore)
    | many hFirst hAgain =>
      cases hOutcome
      have hFirstLe := hFirst.length_le
      exact .many (hBody other hText hGap hBehind hFirst)
        (again_append hBody hAgain (by omega) hBehind hNonempty (hExcludes hLastMore))
  rw [← Mode.behindGap_append hNonempty] at hLastMore
  rw [← Mode.gap_append hNonempty behind]
  exact .seq hManyMore hLastMore

end Stable

end RowFilter.Grammar
