import RowFilter.Proofs.Grammar.Piece

/-! What reading a text with a grammar comes to, without any bound on depth
or repetition. The relation `Reads` has one rule for each way in which an
expression succeeds or fails. It knows texts only, so it says at once what
is read wherever the text stands. It relates each text to one outcome at
most, and a success takes exactly the text of its pieces. -/

namespace RowFilter.Grammar

variable {R : Type}

/-- What is to be read. -/
inductive Task (R : Type) where
  | once (expr : Expr R)
  /-- As many further rounds of an expression as follow. Blanks may stand
  before each of them. -/
  | again (expr : Expr R)

/-- Nothing on failure, else the pieces that were read and the text behind. -/
abbrev Outcome (R : Type) := Option (List (Piece R) × List Char)

/-- Takes the characters that the tests accept one behind the other. -/
def takeAll? : List (Char → Bool) → List Char → Option (List Char × List Char)
  | [], text => some ([], text)
  | _ :: _, [] => none
  | p :: ps, c :: text =>
    if p c then (takeAll? ps text).map fun (taken, rest) => (c :: taken, rest) else none

namespace Outcome

/-- Characters without a match. -/
def ofTaken (taken : Option (List Char × List Char)) : Outcome R :=
  taken.map fun (text, rest) => (Piece.chars text, rest)

/-- The outcome of a rule, given the outcome of its body. -/
def ofBody (shows : Bool) (rule : R) (outcome : Outcome R) : Outcome R :=
  if shows then outcome.map fun (pieces, rest) => ([.shown rule pieces], rest) else outcome

end Outcome

/-- The blanks that are skipped at the beginning of a text. -/
def Mode.gap (mode : Mode) (isBlank : Char → Bool) (text : List Char) : List Char :=
  if mode.skipsBlanks then text.takeWhile isBlank else []

/-- A text without the blanks that are skipped at its beginning. -/
def Mode.behindGap (mode : Mode) (isBlank : Char → Bool) (text : List Char) : List Char :=
  if mode.skipsBlanks then text.dropWhile isBlank else text

/-- A text is the gap at its beginning and what stands behind it. -/
theorem Mode.gap_append_behindGap (mode : Mode) (isBlank : Char → Bool) (text : List Char) :
    mode.gap isBlank text ++ mode.behindGap isBlank text = text := by
  cases h : mode.skipsBlanks <;> simp [gap, behindGap, h]

/-- Whether a rule shows its match. -/
def shows (grammar : Grammar R) (rule : R) (mode : Mode) : Bool :=
  grammar.kind rule ≠ .silent ∧ mode.records

/-- What a task comes to at the beginning of a text, the last part of a whole
text of the given length. -/
inductive Reads (grammar : Grammar R) (length : Nat) :
    Task R → Mode → List Char → Outcome R → Prop where
  | literal (word : String) (mode : Mode) (text : List Char) :
      Reads grammar length (.once (.literal word)) mode text
        (.ofTaken (takeAll? (word.toList.map fun a b => a = b) text))
  | word (word : String) (mode : Mode) (text : List Char) :
      Reads grammar length (.once (.word word)) mode text
        (.ofTaken (takeAll? (word.toList.map sameLetter) text))
  | oneOf (accepts : Char → Bool) (mode : Mode) (text : List Char) :
      Reads grammar length (.once (.oneOf accepts)) mode text
        (.ofTaken (takeAll? [accepts] text))
  | atStart (mode : Mode) (text : List Char) :
      Reads grammar length (.once .atStart) mode text
        (if text.length = length then some ([], text) else none)
  | atEnd (mode : Mode) (text : List Char) :
      Reads grammar length (.once .atEnd) mode text
        (if text.isEmpty then some ([], text) else none)
  | rule {rule : R} {mode : Mode} {text : List Char} {outcome : Outcome R}
      (hBody : Reads grammar length (.once (grammar.body rule))
        ((grammar.kind rule).inside mode) text outcome) :
      Reads grammar length (.once (.rule rule)) mode text
        (outcome.ofBody (grammar.shows rule mode) rule)
  | seqFirst {first second : Expr R} {mode : Mode} {text : List Char}
      (hFirst : Reads grammar length (.once first) mode text none) :
      Reads grammar length (.once (.seq first second)) mode text none
  | seqSecond {first second : Expr R} {mode : Mode} {text rest : List Char}
      {pieces : List (Piece R)}
      (hFirst : Reads grammar length (.once first) mode text (some (pieces, rest)))
      (hSecond : Reads grammar length (.once second) mode
        (mode.behindGap grammar.isBlank rest) none) :
      Reads grammar length (.once (.seq first second)) mode text none
  | seq {first second : Expr R} {mode : Mode} {text rest stop : List Char}
      {pieces others : List (Piece R)}
      (hFirst : Reads grammar length (.once first) mode text (some (pieces, rest)))
      (hSecond : Reads grammar length (.once second) mode
        (mode.behindGap grammar.isBlank rest) (some (others, stop))) :
      Reads grammar length (.once (.seq first second)) mode text
        (some (pieces ++ Piece.chars (mode.gap grammar.isBlank rest) ++ others, stop))
  | choiceFirst {first second : Expr R} {mode : Mode} {text rest : List Char}
      {pieces : List (Piece R)}
      (hFirst : Reads grammar length (.once first) mode text (some (pieces, rest))) :
      Reads grammar length (.once (.choice first second)) mode text (some (pieces, rest))
  | choiceSecond {first second : Expr R} {mode : Mode} {text : List Char} {outcome : Outcome R}
      (hFirst : Reads grammar length (.once first) mode text none)
      (hSecond : Reads grammar length (.once second) mode text outcome) :
      Reads grammar length (.once (.choice first second)) mode text outcome
  | optionalSome {body : Expr R} {mode : Mode} {text rest : List Char} {pieces : List (Piece R)}
      (hBody : Reads grammar length (.once body) mode text (some (pieces, rest))) :
      Reads grammar length (.once (.optional body)) mode text (some (pieces, rest))
  | optionalNone {body : Expr R} {mode : Mode} {text : List Char}
      (hBody : Reads grammar length (.once body) mode text none) :
      Reads grammar length (.once (.optional body)) mode text (some ([], text))
  | unlessSome {body : Expr R} {mode : Mode} {text rest : List Char} {pieces : List (Piece R)}
      (hBody : Reads grammar length (.once body) { mode with records := false } text
        (some (pieces, rest))) :
      Reads grammar length (.once (.unless body)) mode text none
  | unlessNone {body : Expr R} {mode : Mode} {text : List Char}
      (hBody : Reads grammar length (.once body) { mode with records := false } text none) :
      Reads grammar length (.once (.unless body)) mode text (some ([], text))
  | manyNone {body : Expr R} {mode : Mode} {text : List Char}
      (hBody : Reads grammar length (.once body) mode text none) :
      Reads grammar length (.once (.many body)) mode text (some ([], text))
  | many {body : Expr R} {mode : Mode} {text rest stop : List Char}
      {pieces others : List (Piece R)}
      (hBody : Reads grammar length (.once body) mode text (some (pieces, rest)))
      (hAgain : Reads grammar length (.again body) mode rest (some (others, stop))) :
      Reads grammar length (.once (.many body)) mode text (some (pieces ++ others, stop))
  | againNone {body : Expr R} {mode : Mode} {text : List Char}
      (hBody : Reads grammar length (.once body) mode (mode.behindGap grammar.isBlank text) none) :
      Reads grammar length (.again body) mode text (some ([], text))
  | again {body : Expr R} {mode : Mode} {text rest stop : List Char}
      {pieces others : List (Piece R)}
      (hBody : Reads grammar length (.once body) mode (mode.behindGap grammar.isBlank text)
        (some (pieces, rest)))
      (hAgain : Reads grammar length (.again body) mode rest (some (others, stop))) :
      Reads grammar length (.again body) mode text
        (some (Piece.chars (mode.gap grammar.isBlank text) ++ pieces ++ others, stop))

namespace Reads

variable {grammar : Grammar R} {length : Nat} {task : Task R} {mode : Mode} {text : List Char}

/-- A text is read in one way only. -/
theorem unique {first second : Outcome R} (hFirst : Reads grammar length task mode text first)
    (hSecond : Reads grammar length task mode text second) : first = second := by
  induction hFirst generalizing second with
  | literal | word | oneOf | atStart | atEnd => cases hSecond; rfl
  | rule _ ih =>
    cases hSecond with
    | rule hBody => rw [ih hBody]
  | seqFirst _ ih =>
    cases hSecond with
    | seqFirst | seqSecond => rfl
    | seq hFirst => cases ih hFirst
  | seqSecond _ _ ihFirst ihSecond =>
    cases hSecond with
    | seqFirst | seqSecond => rfl
    | seq hFirst hSecond =>
      cases ihFirst hFirst
      cases ihSecond hSecond
  | seq _ _ ihFirst ihSecond =>
    cases hSecond with
    | seqFirst hFirst => cases ihFirst hFirst
    | seqSecond hFirst hSecond =>
      cases ihFirst hFirst
      cases ihSecond hSecond
    | seq hFirst hSecond =>
      cases ihFirst hFirst
      cases ihSecond hSecond
      rfl
  | choiceFirst _ ih =>
    cases hSecond with
    | choiceFirst hFirst => exact ih hFirst
    | choiceSecond hFirst => cases ih hFirst
  | choiceSecond _ _ ihFirst ihSecond =>
    cases hSecond with
    | choiceFirst hFirst => cases ihFirst hFirst
    | choiceSecond _ hSecond => exact ihSecond hSecond
  | optionalSome _ ih =>
    cases hSecond with
    | optionalSome hBody => exact ih hBody
    | optionalNone hBody => cases ih hBody
  | optionalNone _ ih =>
    cases hSecond with
    | optionalSome hBody => cases ih hBody
    | optionalNone => rfl
  | unlessSome _ ih =>
    cases hSecond with
    | unlessSome => rfl
    | unlessNone hBody => cases ih hBody
  | unlessNone _ ih =>
    cases hSecond with
    | unlessSome hBody => cases ih hBody
    | unlessNone => rfl
  | manyNone _ ih =>
    cases hSecond with
    | manyNone => rfl
    | many hBody => cases ih hBody
  | many _ _ ihBody ihAgain =>
    cases hSecond with
    | manyNone hBody => cases ihBody hBody
    | many hBody hAgain =>
      cases ihBody hBody
      cases ihAgain hAgain
      rfl
  | againNone _ ih =>
    cases hSecond with
    | againNone => rfl
    | again hBody => cases ih hBody
  | again _ _ ihBody ihAgain =>
    cases hSecond with
    | againNone hBody => cases ihBody hBody
    | again hBody hAgain =>
      cases ihBody hBody
      cases ihAgain hAgain
      rfl

end Reads

/-- Tests take as many characters as there are tests. -/
theorem takeAll?_eq_some {tests : List (Char → Bool)} {text taken rest : List Char}
    (h : takeAll? tests text = some (taken, rest)) :
    text = taken ++ rest ∧ taken.length = tests.length := by
  induction tests generalizing text taken with
  | nil => cases h; exact ⟨rfl, rfl⟩
  | cons p ps ih =>
    cases text with
    | nil => cases h
    | cons c text =>
      rw [takeAll?] at h
      split at h
      · obtain ⟨⟨others, stop⟩, hOthers, hEq⟩ := Option.map_eq_some_iff.1 h
        cases hEq
        obtain ⟨rfl, hLength⟩ := ih hOthers
        exact ⟨rfl, congrArg (· + 1) hLength⟩
      · cases h

/-- Characters are shown as they were taken. -/
theorem Outcome.ofTaken_eq_some {result : Option (List Char × List Char)} {rest : List Char}
    {pieces : List (Piece R)} :
    Outcome.ofTaken result = some (pieces, rest) ↔
      ∃ taken, result = some (taken, rest) ∧ pieces = Piece.chars taken := by
  constructor
  · intro h
    obtain ⟨⟨taken, stop⟩, hTaken, hEq⟩ := Option.map_eq_some_iff.1 h
    cases hEq
    exact ⟨taken, hTaken, rfl⟩
  · rintro ⟨taken, rfl, rfl⟩
    rfl

private theorem Outcome.text_ofTaken {tests : List (Char → Bool)} {text rest : List Char}
    {pieces : List (Piece R)}
    (h : Outcome.ofTaken (takeAll? tests text) = some (pieces, rest)) :
    text = Piece.textOf pieces ++ rest := by
  obtain ⟨taken, hTaken, rfl⟩ := Outcome.ofTaken_eq_some.1 h
  rw [Piece.textOf_chars]
  exact (takeAll?_eq_some hTaken).1

/-- A match around pieces takes their text. -/
theorem Outcome.exists_of_ofBody {shows : Bool} {rule : R} {rest : List Char}
    {outcome : Outcome R} {pieces : List (Piece R)}
    (h : outcome.ofBody shows rule = some (pieces, rest)) :
    ∃ parts, outcome = some (parts, rest) ∧ Piece.textOf pieces = Piece.textOf parts := by
  cases shows with
  | false => exact ⟨pieces, h, rfl⟩
  | true =>
    obtain ⟨⟨parts, stop⟩, hParts, hEq⟩ := Option.map_eq_some_iff.1 h
    cases hEq
    exact ⟨parts, hParts, Piece.textOf_shown ..⟩

/-- A success takes the text of its pieces and leaves the text behind them. -/
theorem Reads.text_eq {grammar : Grammar R} {length : Nat} {task : Task R} {mode : Mode}
    {text rest : List Char} {pieces : List (Piece R)}
    (h : Reads grammar length task mode text (some (pieces, rest))) :
    text = Piece.textOf pieces ++ rest := by
  generalize hOutcome : (some (pieces, rest) : Outcome R) = outcome at h
  induction h generalizing pieces rest with
  | literal | word | oneOf => exact Outcome.text_ofTaken hOutcome.symm
  | atStart | atEnd =>
    split at hOutcome <;> cases hOutcome
    rfl
  | rule _ ih =>
    obtain ⟨parts, hParts, hText⟩ := Outcome.exists_of_ofBody hOutcome.symm
    rw [hText]
    exact ih hParts.symm
  | seqFirst | seqSecond | unlessSome => cases hOutcome
  | seq _ _ ihFirst ihSecond =>
    cases hOutcome
    rw [ihFirst rfl, Piece.textOf_append, Piece.textOf_append, Piece.textOf_chars,
      List.append_assoc, List.append_assoc, ← ihSecond rfl, Mode.gap_append_behindGap]
  | choiceFirst _ ih | optionalSome _ ih => exact ih hOutcome
  | choiceSecond _ _ _ ih => exact ih hOutcome
  | optionalNone | unlessNone | manyNone | againNone => cases hOutcome; rfl
  | many _ _ ihBody ihAgain =>
    cases hOutcome
    rw [ihBody rfl, Piece.textOf_append, List.append_assoc, ← ihAgain rfl]
  | @again _ mode text _ _ _ _ _ _ ihBody ihAgain =>
    cases hOutcome
    have hGap := mode.gap_append_behindGap grammar.isBlank text
    rw [ihBody rfl, ihAgain rfl] at hGap
    simpa only [Piece.textOf_append, Piece.textOf_chars, List.append_assoc] using hGap.symm

end RowFilter.Grammar
