import RowFilter.Proofs.Grammar.Matches

/-! Reading inside an atomic rule: nothing is skipped and nothing is shown.
What is read is then a text, and reading once more behind a round is reading
as at first, so each kind of expression has two equivalences, one for the
texts that it takes and one for the texts at which it fails. -/

namespace RowFilter.Grammar

variable {R : Type}

/-- The mode inside an atomic rule. -/
def Mode.atomic : Mode := ⟨false, false⟩

theorem Kind.inside_atomic (kind : Kind) : kind.inside .atomic = .atomic := by
  cases kind <;> rfl

/-- Inside an atomic rule an expression takes a text from the beginning of
another one. -/
def Takes (grammar : Grammar R) (length : Nat) (expr : Expr R)
    (text taken rest : List Char) : Prop :=
  Reads grammar length (.once expr) .atomic text (some (Piece.chars taken, rest))

/-- Inside an atomic rule an expression fails at a text. -/
def Fails (grammar : Grammar R) (length : Nat) (expr : Expr R) (text : List Char) : Prop :=
  Reads grammar length (.once expr) .atomic text none

variable {grammar : Grammar R} {length : Nat} {expr first second : Expr R}
  {text taken rest : List Char}

/-- What is read inside an atomic rule is a text. -/
theorem Reads.takes {pieces : List (Piece R)}
    (h : Reads grammar length (.once expr) .atomic text (some (pieces, rest))) :
    Takes grammar length expr text (Piece.textOf pieces) rest := by
  rwa [h.eq_chars rfl] at h

/-- What is taken stands at the beginning of the text. -/
theorem Takes.text_eq (h : Takes grammar length expr text taken rest) : text = taken ++ rest := by
  have hText := Reads.text_eq h
  rwa [Piece.textOf_chars] at hText

/-- Inside an atomic rule no match is shown. -/
theorem shows_atomic (rule : R) : grammar.shows rule .atomic = false := by
  simp [shows, Mode.atomic]

/-- A rule takes what its body takes. -/
theorem takes_rule {rule : R} :
    Takes grammar length (.rule rule) text taken rest ↔
      Takes grammar length (grammar.body rule) text taken rest := by
  constructor
  · intro h
    obtain ⟨parts, hBody, hPieces⟩ := Reads.of_rule h
    rw [Kind.inside_atomic] at hBody
    rw [shows_atomic] at hPieces
    obtain rfl : Piece.chars taken = parts := hPieces
    exact hBody
  · intro h
    rw [Takes, ← Kind.inside_atomic (grammar.kind rule)] at h
    have hRule := Reads.rule h
    rw [Outcome.ofBody, shows_atomic] at hRule
    exact hRule

theorem fails_rule {rule : R} :
    Fails grammar length (.rule rule) text ↔ Fails grammar length (grammar.body rule) text := by
  rw [Fails, Reads.rule_none, Kind.inside_atomic, Fails]

private theorem takes_of_takeAll? {tests : List (Char → Bool)}
    (hReads : Reads grammar length (.once expr) .atomic text (.ofTaken (takeAll? tests text))) :
    Takes grammar length expr text taken rest ↔ takeAll? tests text = some (taken, rest) := by
  constructor
  · intro h
    obtain ⟨other, hTaken, hPieces⟩ := Outcome.ofTaken_eq_some.1 (Reads.unique hReads h)
    have hText := congrArg Piece.textOf hPieces
    rw [Piece.textOf_chars, Piece.textOf_chars] at hText
    rw [hTaken, hText]
  · intro h
    rwa [h] at hReads

/-- A word is taken exactly where it stands. -/
theorem takeAll?_equal {word : List Char} :
    takeAll? (word.map fun a b => decide (a = b)) text = some (taken, rest) ↔
      taken = word ∧ text = word ++ rest := by
  induction word generalizing text taken with
  | nil => simp [takeAll?, eq_comm]
  | cons a word ih =>
    cases text with
    | nil => simp [takeAll?]
    | cons c text =>
      rw [List.map_cons, takeAll?, List.cons_append, List.cons.injEq]
      split
      · next hEqual =>
        rw [of_decide_eq_true hEqual, Option.map_eq_some_iff]
        constructor
        · rintro ⟨⟨others, stop⟩, hOthers, hEq⟩
          cases hEq
          obtain ⟨rfl, rfl⟩ := ih.1 hOthers
          exact ⟨rfl, rfl, rfl⟩
        · rintro ⟨rfl, -, rfl⟩
          exact ⟨(word, rest), ih.2 ⟨rfl, rfl⟩, rfl⟩
      · next hOther =>
        constructor
        · intro h
          cases h
        · rintro ⟨-, hFirst, -⟩
          exact absurd (decide_eq_true hFirst.symm) hOther

theorem takes_literal {word : String} :
    Takes grammar length (.literal word) text taken rest ↔
      taken = word.toList ∧ text = word.toList ++ rest := by
  rw [← takeAll?_equal]
  exact takes_of_takeAll? (.literal ..)

theorem takes_word {word : String} :
    Takes grammar length (.word word) text taken rest ↔
      takeAll? (word.toList.map sameLetter) text = some (taken, rest) :=
  takes_of_takeAll? (.word ..)

theorem takes_oneOf {accepts : Char → Bool} :
    Takes grammar length (.oneOf accepts) text taken rest ↔
      takeAll? [accepts] text = some (taken, rest) :=
  takes_of_takeAll? (.oneOf ..)

/-- A class of characters takes one of them. -/
theorem takes_oneOf_iff {accepts : Char → Bool} :
    Takes grammar length (.oneOf accepts) text taken rest ↔
      ∃ c, accepts c = true ∧ taken = [c] ∧ text = c :: rest := by
  rw [takes_oneOf]
  cases text with
  | nil => simp [takeAll?]
  | cons d text =>
    cases h : accepts d with
    | false =>
      simp only [takeAll?, h, Bool.false_eq_true, if_false, reduceCtorEq, false_iff]
      rintro ⟨c, hc, -, hText⟩
      cases hText
      rw [h] at hc
      cases hc
    | true =>
      simp only [takeAll?, h, if_true, Option.map_some, Option.some.injEq, Prod.mk.injEq]
      constructor
      · rintro ⟨rfl, rfl⟩
        exact ⟨d, h, rfl, rfl⟩
      · rintro ⟨c, -, rfl, hText⟩
        cases hText
        exact ⟨rfl, rfl⟩

private theorem fails_of_takeAll? {tests : List (Char → Bool)}
    (hReads : Reads grammar length (.once expr) .atomic text (.ofTaken (takeAll? tests text))) :
    Fails grammar length expr text ↔ takeAll? tests text = none := by
  constructor
  · intro h
    exact Option.map_eq_none_iff.1 (Reads.unique hReads h)
  · intro h
    rwa [h] at hReads

theorem fails_literal {word : String} :
    Fails grammar length (.literal word) text ↔
      takeAll? (word.toList.map fun a b => a = b) text = none :=
  fails_of_takeAll? (.literal ..)

/-- A word fails exactly where the text does not begin with it. -/
theorem fails_literal_iff {word : String} :
    Fails grammar length (.literal word) text ↔ ¬word.toList <+: text := by
  rw [fails_literal, Option.eq_none_iff_forall_ne_some]
  constructor
  · rintro h ⟨rest, rfl⟩
    exact h _ (takeAll?_equal.2 ⟨rfl, rfl⟩)
  · rintro h ⟨taken, rest⟩ hSome
    obtain ⟨-, rfl⟩ := takeAll?_equal.1 hSome
    exact h (List.prefix_append _ _)

theorem fails_word {word : String} :
    Fails grammar length (.word word) text ↔
      takeAll? (word.toList.map sameLetter) text = none :=
  fails_of_takeAll? (.word ..)

theorem fails_oneOf {accepts : Char → Bool} :
    Fails grammar length (.oneOf accepts) text ↔ takeAll? [accepts] text = none :=
  fails_of_takeAll? (.oneOf ..)

/-- A sequence takes what its expressions take one behind the other. -/
theorem takes_seq :
    Takes grammar length (.seq first second) text taken rest ↔
      ∃ before middle after, Takes grammar length first text before middle ∧
        Takes grammar length second middle after rest ∧ taken = before ++ after := by
  constructor
  · intro h
    obtain ⟨parts, middle, others, hFirst, hSecond, hPieces⟩ := Reads.of_seq h
    refine ⟨_, middle, _, hFirst.takes, hSecond.takes, ?_⟩
    simpa [Mode.gap, Mode.atomic] using congrArg Piece.textOf hPieces
  · rintro ⟨before, middle, after, hFirst, hSecond, rfl⟩
    have h := Reads.seq hFirst hSecond
    rwa [show Mode.atomic.gap grammar.isBlank middle = [] from rfl, ← Piece.chars_append,
      List.append_nil, ← Piece.chars_append] at h

/-- A sequence fails where one of its expressions does. -/
theorem fails_seq :
    Fails grammar length (.seq first second) text ↔
      Fails grammar length first text ∨
        ∃ before middle, Takes grammar length first text before middle ∧
          Fails grammar length second middle := by
  constructor
  · intro h
    cases h with
    | seqFirst hFirst => exact .inl hFirst
    | seqSecond hFirst hSecond => exact .inr ⟨_, _, hFirst.takes, hSecond⟩
  · rintro (hFirst | ⟨before, middle, hFirst, hSecond⟩)
    · exact .seqFirst hFirst
    · exact .seqSecond hFirst hSecond

/-- A choice takes what its first expression takes, or else what its second one takes. -/
theorem takes_choice :
    Takes grammar length (.choice first second) text taken rest ↔
      Takes grammar length first text taken rest ∨
        Fails grammar length first text ∧ Takes grammar length second text taken rest := by
  constructor
  · exact Reads.of_choice
  · rintro (hFirst | ⟨hFirst, hSecond⟩)
    · exact .choiceFirst hFirst
    · exact .choiceSecond hFirst hSecond

theorem fails_choice :
    Fails grammar length (.choice first second) text ↔
      Fails grammar length first text ∧ Fails grammar length second text := by
  constructor
  · intro h
    cases h with
    | choiceSecond hFirst hSecond => exact ⟨hFirst, hSecond⟩
  · rintro ⟨hFirst, hSecond⟩
    exact .choiceSecond hFirst hSecond

private theorem nothing_taken
    (h : (some ([], text) : Outcome R) = some (Piece.chars taken, rest)) :
    taken = [] ∧ rest = text := by
  obtain ⟨hPieces, hRest⟩ := Prod.mk.inj (Option.some.inj h)
  exact ⟨List.map_eq_nil_iff.1 hPieces.symm, hRest.symm⟩

theorem takes_optional :
    Takes grammar length (.optional expr) text taken rest ↔
      Takes grammar length expr text taken rest ∨
        Fails grammar length expr text ∧ taken = [] ∧ rest = text := by
  constructor
  · intro h
    rw [Takes] at h
    generalize hOutcome : (some (Piece.chars taken, rest) : Outcome R) = outcome at h
    cases h with
    | optionalSome hBody =>
      rw [← hOutcome] at hBody
      exact .inl hBody
    | optionalNone hBody => exact .inr ⟨hBody, nothing_taken hOutcome.symm⟩
  · rintro (hBody | ⟨hBody, rfl, rfl⟩)
    · exact .optionalSome hBody
    · exact .optionalNone hBody

/-- A negative lookahead takes nothing and succeeds where its expression fails. -/
theorem takes_unless :
    Takes grammar length (.unless expr) text taken rest ↔
      Fails grammar length expr text ∧ taken = [] ∧ rest = text := by
  constructor
  · intro h
    rw [Takes] at h
    generalize hOutcome : (some (Piece.chars taken, rest) : Outcome R) = outcome at h
    cases h with
    | unlessSome => cases hOutcome
    | unlessNone hBody => exact ⟨hBody, nothing_taken hOutcome.symm⟩
  · rintro ⟨hBody, rfl, rfl⟩
    exact .unlessNone hBody

private theorem takes_of_again {pieces : List (Piece R)}
    (h : Reads grammar length (.again expr) .atomic text (some (pieces, rest))) :
    Takes grammar length (.many expr) text (Piece.textOf pieces) rest := by
  generalize hOutcome : some (pieces, rest) = outcome at h
  cases h with
  | againNone hBody =>
    cases hOutcome
    exact .manyNone hBody
  | again hBody hAgain =>
    cases hOutcome
    exact Reads.takes (.many hBody hAgain)

/-- A repetition is nothing or a round and a repetition. -/
theorem takes_many :
    Takes grammar length (.many expr) text taken rest ↔
      (Fails grammar length expr text ∧ taken = [] ∧ rest = text) ∨
        ∃ before middle after, Takes grammar length expr text before middle ∧
          Takes grammar length (.many expr) middle after rest ∧ taken = before ++ after := by
  constructor
  · intro h
    rw [Takes] at h
    generalize hOutcome : (some (Piece.chars taken, rest) : Outcome R) = outcome at h
    cases h with
    | manyNone hBody => exact .inl ⟨hBody, nothing_taken hOutcome.symm⟩
    | @many _ _ _ middle _ parts others hBody hAgain =>
      obtain ⟨hPieces, rfl⟩ := Prod.mk.inj (Option.some.inj hOutcome)
      refine .inr ⟨_, middle, Piece.textOf others, hBody.takes, takes_of_again hAgain, ?_⟩
      simpa using congrArg Piece.textOf hPieces
  · rintro (⟨hBody, rfl, rfl⟩ | ⟨before, middle, after, hBody, hMany, rfl⟩)
    · exact .manyNone hBody
    · rw [Takes, Piece.chars_append]
      refine .many hBody ?_
      rw [Takes] at hMany
      generalize hOutcome : (some (Piece.chars after, rest) : Outcome R) = outcome at hMany ⊢
      cases hMany with
      | manyNone hBody => exact .againNone hBody
      | many hBody hAgain => exact .again hBody hAgain

private theorem of_further_rounds {motive : List Char → List Char → Prop}
    {pieces : List (Piece R)}
    (h : Reads grammar length (.again expr) .atomic text (some (pieces, rest)))
    (last : Fails grammar length expr rest → motive rest [])
    (more : ∀ {text before middle after : List Char}, Takes grammar length expr text before middle →
      Takes grammar length (.many expr) middle after rest → motive middle after →
      motive text (before ++ after)) :
    motive text (Piece.textOf pieces) := by
  generalize hTask : Task.again expr = task at h
  generalize hMode : Mode.atomic = mode at h
  generalize hOutcome : some (pieces, rest) = outcome at h
  induction h generalizing pieces with
  | againNone hBody =>
    cases hTask
    cases hOutcome
    subst hMode
    exact last hBody
  | @again _ _ _ _ _ parts others hBody hAgain _ ih =>
    cases hTask
    cases hOutcome
    subst hMode
    have hRounds : motive _ (Piece.textOf parts ++ Piece.textOf others) :=
      more hBody.takes (takes_of_again hAgain) (ih rfl rfl rfl)
    simpa [Mode.gap, Mode.behindGap, Mode.atomic] using hRounds
  | _ => cases hTask

/-- Rounds are taken one behind the other: what holds behind the last one, where a further one
fails, and in front of a round if it holds behind it, holds in front of all of them. -/
@[elab_as_elim]
theorem Takes.many_induction {motive : ∀ text taken : List Char,
      Takes grammar length (.many expr) text taken rest → Prop}
    (h : Takes grammar length (.many expr) text taken rest)
    (last : ∀ h, Fails grammar length expr rest → motive rest [] h)
    (more : ∀ {text before middle after : List Char} (h)
      (_ : Takes grammar length expr text before middle)
      (hMany : Takes grammar length (.many expr) middle after rest),
      motive middle after hMany → motive text (before ++ after) h) :
    motive text taken h := by
  have hReads := h
  rw [Takes] at hReads
  generalize hOutcome : (some (Piece.chars taken, rest) : Outcome R) = outcome at hReads
  cases hReads with
  | manyNone hBody =>
    obtain ⟨rfl, rfl⟩ := nothing_taken hOutcome.symm
    exact last h hBody
  | @many _ _ _ _ _ parts others hBody hAgain =>
    obtain ⟨hPieces, rfl⟩ := Prod.mk.inj (Option.some.inj hOutcome)
    obtain rfl : taken = Piece.textOf parts ++ Piece.textOf others := by
      simpa using congrArg Piece.textOf hPieces
    have hMany := takes_of_again hAgain
    refine more h hBody.takes hMany ?_
    exact of_further_rounds (motive := fun text taken => ∀ h, motive text taken h) hAgain
      (fun hFails h => last h hFails) (fun hRound hMany ih h => more h hRound hMany (ih hMany)) hMany

/-- A repetition never fails. -/
theorem not_fails_many : ¬Fails grammar length (.many expr) text := nofun

/-- A repetition of what takes one character of a class takes all that follow. -/
theorem takes_many_class {accepts : Char → Bool}
    (hTakes : ∀ {text taken rest}, Takes grammar length expr text taken rest ↔
      takeAll? [accepts] text = some (taken, rest))
    (hFails : ∀ {text}, Fails grammar length expr text ↔ takeAll? [accepts] text = none) :
    Takes grammar length (.many expr) text taken rest ↔
      taken = text.takeWhile accepts ∧ rest = text.dropWhile accepts := by
  induction text generalizing taken with
  | nil => rw [takes_many]; simp [hFails, hTakes, takeAll?]
  | cons c text ih =>
    rw [takes_many]
    cases h : accepts c with
    | false => simp [hFails, hTakes, takeAll?, h]
    | true =>
      simp only [hFails, hTakes, takeAll?, h, if_true, Option.map_some, reduceCtorEq,
        false_and, false_or, Option.some.injEq, Prod.mk.injEq, List.takeWhile_cons,
        List.dropWhile_cons]
      constructor
      · rintro ⟨before, middle, after, ⟨rfl, rfl⟩, hMany, rfl⟩
        obtain ⟨rfl, rfl⟩ := ih.1 hMany
        exact ⟨rfl, rfl⟩
      · rintro ⟨rfl, rfl⟩
        exact ⟨[c], text, _, ⟨rfl, rfl⟩, ih.2 ⟨rfl, rfl⟩, rfl⟩

/-- One or more characters of a class are all that follow, if there are any. -/
theorem takes_many1_class {accepts : Char → Bool}
    (hTakes : ∀ {text taken rest}, Takes grammar length expr text taken rest ↔
      takeAll? [accepts] text = some (taken, rest))
    (hFails : ∀ {text}, Fails grammar length expr text ↔ takeAll? [accepts] text = none) :
    Takes grammar length (.many1 expr) text taken rest ↔
      taken = text.takeWhile accepts ∧ rest = text.dropWhile accepts ∧ taken ≠ [] := by
  rw [Expr.many1, takes_seq]
  cases text with
  | nil => simpa [hTakes, takeAll?] using fun h _ => h
  | cons c text =>
    cases h : accepts c with
    | false => simpa [hTakes, takeAll?, h] using fun h _ => h
    | true =>
      simp only [hTakes, takeAll?, h, if_true, Option.map_some, Option.some.injEq,
        Prod.mk.injEq, takes_many_class hTakes hFails, List.takeWhile_cons, List.dropWhile_cons]
      constructor
      · rintro ⟨_, _, _, ⟨rfl, rfl⟩, ⟨rfl, rfl⟩, rfl⟩
        exact ⟨rfl, rfl, List.cons_ne_nil _ _⟩
      · rintro ⟨rfl, rfl, -⟩
        exact ⟨_, _, _, ⟨rfl, rfl⟩, ⟨rfl, rfl⟩, rfl⟩

theorem takes_many1_oneOf {accepts : Char → Bool} :
    Takes grammar length (.many1 (.oneOf accepts)) text taken rest ↔
      taken = text.takeWhile accepts ∧ rest = text.dropWhile accepts ∧ taken ≠ [] :=
  takes_many1_class takes_oneOf fails_oneOf

theorem fails_many1_oneOf {accepts : Char → Bool} :
    Fails grammar length (.many1 (.oneOf accepts)) text ↔ text.takeWhile accepts = [] := by
  rw [Expr.many1, fails_seq]
  simp only [not_fails_many, and_false, exists_false, or_false, fails_oneOf]
  cases text with
  | nil => simp [takeAll?]
  | cons c text => cases h : accepts c <;> simp [takeAll?, h]

end RowFilter.Grammar
