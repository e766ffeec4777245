import RowFilter.Proofs.Grammar.Accepts
import RowFilter.Proofs.Grammar.Stable

/-! What was read, in front of another text. A rule that reads characters may
need something of the text behind its match to read the same match again. If
what an expression reads behind the rule fulfils that need, wherever it is read,
then the expression around both can be read again as well. -/

namespace RowFilter.Grammar

variable {R : Type}

/-- Whether a text is empty or begins with a blank or with the character with which another one
begins. -/
def BeginsLike (isBlank : Char → Bool) (text behind : List Char) : Prop :=
  ∀ c ∈ behind.head?, isBlank c = true ∨ c ∈ text.head?

/-- A class without blanks that does not go on in the one text does not in the other. -/
theorem BeginsLike.stopsAt {isBlank p : Char → Bool} {text behind : List Char}
    (h : BeginsLike isBlank text behind) (hText : Text.StopsAt p text)
    (hBlank : ∀ c, p c = true → isBlank c = false) : Text.StopsAt p behind := by
  cases behind with
  | nil => trivial
  | cons c behind =>
    refine Bool.eq_false_iff.2 fun hc => ?_
    rcases h c rfl with hGap | hHead
    · rw [hBlank c hc] at hGap
      cases hGap
    · cases text with
      | nil => cases hHead
      | cons d text =>
        cases hHead
        rw [Text.stopsAt_cons, hc] at hText
        cases hText

theorem BeginsLike.append {isBlank : Char → Bool} {text behind : List Char} (before : List Char)
    (h : BeginsLike isBlank text behind) :
    BeginsLike isBlank (before ++ text) (before ++ behind) := by
  cases before with
  | nil => exact h
  | cons c before => exact fun _ hHead => .inr hHead

/-- A gap is skipped in front of every text. -/
theorem Mode.behindGap_gap_append (mode : Mode) (isBlank : Char → Bool) (text behind : List Char) :
    mode.behindGap isBlank (mode.gap isBlank text ++ behind) = mode.behindGap isBlank behind := by
  cases h : mode.skipsBlanks with
  | false => simp [gap, behindGap, h]
  | true =>
    simp only [gap, behindGap, h, if_true]
    exact List.dropWhile_append_of_pos fun _ => Text.of_mem_takeWhile

/-- A task is read at a place and leaves a rest, up to a gap. -/
def Goes (grammar : Grammar R) (length : Nat) (task : Task R) (text rest : List Char) : Prop :=
  match task with
  | .once expr => Accepts grammar length expr .initial text rest fun _ => True
  | .again expr => Continues grammar length expr .initial text rest fun _ => True

/-- Where a task is read in front of a text that fulfils a need, its own text fulfils another
one. -/
def Guards (grammar : Grammar R) (task : Task R) (need other : List Char → Prop) : Prop :=
  ∀ ⦃length : Nat⦄ ⦃text rest : List Char⦄, Goes grammar length task text rest → need rest →
    other text

theorem Guards.true {grammar : Grammar R} {task : Task R} {need : List Char → Prop} :
    Guards grammar task need fun _ => True :=
  fun _ _ _ _ _ => trivial

/-- Where an expression is read, the text has a property. -/
def Begins (grammar : Grammar R) (mode : Mode) (expr : Expr R) (P : List Char → Prop) : Prop :=
  ∀ ⦃length : Nat⦄ ⦃text rest : List Char⦄ ⦃pieces : List (Piece R)⦄,
    Reads grammar length (.once expr) mode text (some (pieces, rest)) → P text

/-- No gap stands at a place, unless the task there skips it. -/
def IsBehindGapFor (grammar : Grammar R) (task : Task R) (text : List Char) : Prop :=
  match task with
  | .once _ => Mode.initial.behindGap grammar.isBlank text = text
  | .again _ => True

/-- A task is read again in front of all texts that fulfil a need. Each rule has a need of its
own. -/
inductive Resumes (grammar : Grammar R) (known : R → Bool) (needOf : R → List Char → Prop) :
    Task R → (List Char → Prop) → Prop where
  | rule {rule : R} {need : List Char → Prop} (hRule : known rule = true)
      (hNeed : ∀ text, need text → needOf rule text) :
      Resumes grammar known needOf (.once (.rule rule)) need
  | seq {first second : Expr R} {need other : List Char → Prop}
      (hFirst : Resumes grammar known needOf (.once first) other)
      (hSecond : Resumes grammar known needOf (.once second) need)
      (hGuards : Guards grammar (.once second) need other) :
      Resumes grammar known needOf (.once (.seq first second)) need
  | choice {first second : Expr R} {need : List Char → Prop}
      (hFirst : Resumes grammar known needOf (.once first) need)
      (hSecond : Resumes grammar known needOf (.once second) need)
      (hExcludes : Excludes grammar .initial second first) :
      Resumes grammar known needOf (.once (.choice first second)) need
  | many {body : Expr R} {need : List Char → Prop}
      (hAgain : Resumes grammar known needOf (.again body) need) :
      Resumes grammar known needOf (.once (.many body)) need
  | again {body : Expr R} {need other : List Char → Prop}
      (hBody : Resumes grammar known needOf (.once body) other)
      (hRefuses : ∀ text, need text → ∀ length, Refuses grammar length body .initial text)
      (hGuards : Guards grammar (.again body) need other) :
      Resumes grammar known needOf (.again body) need

/-- Why a rule is read again in front of all texts that fulfil its need. -/
inductive IsResumed (grammar : Grammar R) (quiet known : R → Bool)
    (needOf : R → List Char → Prop) (rule : R) : Prop where
  /-- It reads characters, and no failure of a rule within it is noted. -/
  | leaf (hQuiet : grammar.kind rule = .atomic ∨ (grammar.body rule).within quiet = true)
      (h : ∀ ⦃length other : Nat⦄ ⦃text rest behind : List Char⦄ ⦃pieces : List (Piece R)⦄,
      Reads grammar length (.once (.rule rule)) .initial text (some (pieces, rest)) →
      Mode.initial.behindGap grammar.isBlank text = text →
      BeginsLike grammar.isBlank rest behind →
      needOf rule (Mode.initial.behindGap grammar.isBlank behind) →
      Goes grammar other (.once (.rule rule))
        (Mode.initial.behindGap grammar.isBlank (Piece.textOf pieces ++ behind))
        (Mode.initial.behindGap grammar.isBlank behind))
  | joined (hInside : (grammar.kind rule).inside .initial = .initial)
      (hBody : Resumes grammar known needOf (.once (grammar.body rule)) (needOf rule))

section Goes

variable {grammar : Grammar R} {length : Nat} {expr first second : Expr R}
  {text middle rest : List Char} {P : List Char → Prop}

/-- An expression that reads a text goes on there. -/
theorem Accepts.goes {Q : List (Node R) → Prop}
    (h : Accepts grammar length expr .initial text rest Q) :
    Goes grammar length (.once expr) text rest :=
  h.mono fun _ _ => trivial

namespace Goes

/-- What is read is read up to the gap behind it. -/
theorem of_reads {pieces : List (Piece R)}
    (h : Reads grammar length (.once expr) .initial text (some (pieces, rest))) :
    Goes grammar length (.once expr) text (Mode.initial.behindGap grammar.isBlank rest) := by
  intro start hStart
  subst hStart
  have hRest := Cursor.rest_past h.text_eq
  exact ⟨_, _, ⟨pieces, by rwa [hRest], rfl, rfl⟩, by rw [hRest], trivial⟩

/-- A task that goes on is read. -/
theorem exists_reads (h : Goes grammar length (.once expr) text rest) :
    ∃ pieces stop, Reads grammar length (.once expr) .initial text (some (pieces, stop)) := by
  obtain ⟨_, _, ⟨pieces, hReads, -⟩, -⟩ := h (.ofText text) rfl
  exact ⟨pieces, _, hReads⟩

/-- Where rounds are read, there is none or a first one. -/
theorem again_cases (h : Goes grammar length (.again expr) text rest)
    (hGap : Mode.initial.behindGap grammar.isBlank text = text) :
    text = rest ∨
      ∃ pieces stop, Reads grammar length (.once expr) .initial text (some (pieces, stop)) := by
  obtain ⟨_, stop, ⟨_, hReads, -⟩, hStop, -⟩ := h (.ofText text) hGap
  change Reads grammar length (.again expr) .initial text _ at hReads
  generalize hRest : stop.rest = behind at hReads hStop
  cases hReads with
  | againNone => exact .inl (hGap.symm.trans hStop)
  | again hBody =>
    rw [hGap] at hBody
    exact .inr ⟨_, _, hBody⟩

theorem many_cases (h : Goes grammar length (.once (.many expr)) text rest) :
    Mode.initial.behindGap grammar.isBlank text = rest ∨
      ∃ pieces stop, Reads grammar length (.once expr) .initial text (some (pieces, stop)) := by
  obtain ⟨_, stop, ⟨_, hReads, -⟩, hStop, -⟩ := h (.ofText text) rfl
  change Reads grammar length (.once (.many expr)) .initial text _ at hReads
  generalize hRest : stop.rest = behind at hReads hStop
  cases hReads with
  | manyNone => exact .inl hStop
  | many hBody => exact .inr ⟨_, _, hBody⟩

theorem rule {rule : R} (h : Goes grammar length (.once (grammar.body rule)) text rest)
    (hInside : (grammar.kind rule).inside .initial = .initial) :
    Goes grammar length (.once (.rule rule)) text rest := by
  intro start hStart
  obtain ⟨nodes, stop, hMatches, hStop, -⟩ := h start hStart
  rw [← hInside] at hMatches
  exact ⟨_, stop, hMatches.rule, hStop, trivial⟩

theorem seq (hFirst : Goes grammar length (.once first) text middle)
    (hSecond : Goes grammar length (.once second) middle rest) :
    Goes grammar length (.once (.seq first second)) text rest :=
  (Accepts.seq hFirst hSecond).goes

theorem choiceSecond (hExcludes : Excludes grammar .initial second first)
    (h : Goes grammar length (.once second) text rest) :
    Goes grammar length (.once (.choice first second)) text rest := by
  obtain ⟨_, _, hReads⟩ := h.exists_reads
  exact Accepts.choiceSecond (hExcludes hReads) h

theorem many (h : Goes grammar length (.again expr) text rest)
    (hGap : Mode.initial.behindGap grammar.isBlank text = text) :
    Goes grammar length (.once (.many expr)) text rest :=
  Accepts.many h hGap

theorem done (h : Refuses grammar length expr .initial text) :
    Goes grammar length (.again expr) text text :=
  (Continues.done h).mono fun _ _ => trivial

theorem more (hBody : Goes grammar length (.once expr) text middle)
    (hAgain : Goes grammar length (.again expr) middle rest) :
    Goes grammar length (.again expr) text rest :=
  (Continues.more hBody hAgain).mono fun _ _ => trivial

end Goes

namespace Begins

variable {mode : Mode}

theorem true : Begins grammar mode expr fun _ => True :=
  fun _ _ _ _ _ => trivial

theorem literal {word : String} (h : ∀ rest, P (word.toList ++ rest)) :
    Begins grammar mode (.literal word) P := by
  intro length text rest pieces hReads
  rw [hReads.of_literal.2]
  exact h rest

theorem atEnd (h : P []) : Begins grammar mode .atEnd P := by
  intro length text rest pieces hReads
  rw [hReads.of_atEnd.2.2]
  exact h

theorem rule {rule : R}
    (h : Begins grammar ((grammar.kind rule).inside mode) (grammar.body rule) P) :
    Begins grammar mode (.rule rule) P := by
  intro length text rest pieces hReads
  obtain ⟨_, hBody, -⟩ := hReads.of_rule
  exact h hBody

theorem seq (h : Begins grammar mode first P) : Begins grammar mode (.seq first second) P := by
  intro length text rest pieces hReads
  obtain ⟨_, _, _, hFirst, -, -⟩ := hReads.of_seq
  exact h hFirst

theorem choice (hFirst : Begins grammar mode first P) (hSecond : Begins grammar mode second P) :
    Begins grammar mode (.choice first second) P := by
  intro length text rest pieces hReads
  rcases hReads.of_choice with h | ⟨-, h⟩
  · exact hFirst h
  · exact hSecond h

theorem guards {need : List Char → Prop} (h : Begins grammar .initial expr P) :
    Guards grammar (.once expr) need P := by
  intro length text rest hGoes _
  obtain ⟨_, _, hReads⟩ := hGoes.exists_reads
  exact h hReads

section Rounds

variable {need : List Char → Prop} (h : Begins grammar .initial expr P)
  (hDone : ∀ text, need text → P text)
  (hGap : ∀ text, Mode.initial.behindGap grammar.isBlank text ≠ text → P text)

include h hDone hGap

/-- Rounds are read in front of a text that fulfils their need, in front of a gap, or where one of
them begins. -/
theorem guards_again : Guards grammar (.again expr) need P := by
  intro length text rest hGoes hNeed
  by_cases hText : Mode.initial.behindGap grammar.isBlank text = text
  · rcases hGoes.again_cases hText with rfl | ⟨_, _, hReads⟩
    · exact hDone text hNeed
    · exact h hReads
  · exact hGap text hText

theorem guards_many : Guards grammar (.once (.many expr)) need P := by
  intro length text rest hGoes hNeed
  by_cases hText : Mode.initial.behindGap grammar.isBlank text = text
  · rcases hGoes.many_cases with hRest | ⟨_, _, hReads⟩
    · rw [hText] at hRest
      exact hDone text (hRest ▸ hNeed)
    · exact h hReads
  · exact hGap text hText

end Rounds

end Begins

end Goes

section Reads

variable {grammar : Grammar R} {quiet known : R → Bool} {needOf : R → List Char → Prop}
  {need : List Char → Prop} {length : Nat} {task : Task R} {text rest behind : List Char}
  {pieces : List (Piece R)}

/-- The induction is on the reading, so a rule within itself is no special case. -/
theorem Reads.goes (other : Nat)
    (hRules : ∀ rule, known rule = true → IsResumed grammar quiet known needOf rule) {mode : Mode}
    {outcome : Outcome R} (h : Reads grammar length task mode text outcome)
    (hMode : mode = .initial) (hOutcome : outcome = some (pieces, rest))
    (hText : IsBehindGapFor grammar task text) (hTask : Resumes grammar known needOf task need)
    (hBehind : BeginsLike grammar.isBlank rest behind)
    (hNeed : need (Mode.initial.behindGap grammar.isBlank behind)) :
    Goes grammar other task
      (Mode.initial.behindGap grammar.isBlank (Piece.textOf pieces ++ behind))
      (Mode.initial.behindGap grammar.isBlank behind) := by
  induction h generalizing pieces rest behind need with
  | literal | word | oneOf | atStart | atEnd | optionalSome | optionalNone | unlessNone =>
    cases hTask
  | seqFirst | seqSecond | unlessSome => cases hOutcome
  | @rule rule mode text outcome hBody ih =>
    subst hMode
    cases hTask with
    | rule hRule hImplies =>
      cases hRules rule hRule with
      | leaf _ h =>
        have hReads := Reads.rule hBody
        rw [hOutcome] at hReads
        exact h hReads hText hBehind (hImplies _ hNeed)
      | joined hInside hResumes =>
        obtain ⟨parts, hParts, hSame⟩ := Outcome.exists_of_ofBody hOutcome
        rw [hSame]
        exact Goes.rule (ih hInside hParts hText hResumes hBehind (hImplies _ hNeed)) hInside
  | @seq first second mode text middle stop parts others hFirst hSecond ihFirst ihSecond =>
    subst hMode
    cases hOutcome
    cases hTask with
    | seq hTaskFirst hTaskSecond hGuards =>
      have hMore := ihSecond rfl rfl (Mode.behindGap_idem ..) hTaskSecond hBehind hNeed
      rw [← Mode.behindGap_gap_append _ _ middle] at hMore
      have hMiddle := (hBehind.append (Piece.textOf others)).append
        (Mode.initial.gap grammar.isBlank middle)
      rw [← hSecond.text_eq, Mode.gap_append_behindGap] at hMiddle
      have hStart := ihFirst rfl rfl hText hTaskFirst hMiddle (hGuards hMore hNeed)
      simpa only [Piece.textOf_append, Piece.textOf_chars, List.append_assoc] using hStart.seq hMore
  | choiceFirst _ ih =>
    cases hTask with
    | choice hFirst => exact Accepts.choiceFirst (ih hMode hOutcome hText hFirst hBehind hNeed)
  | choiceSecond _ _ _ ih =>
    cases hTask with
    | choice _ hSecond hExcludes =>
      exact Goes.choiceSecond hExcludes (ih hMode hOutcome hText hSecond hBehind hNeed)
  | manyNone =>
    cases hOutcome
    cases hTask with
    | many hTask =>
      cases hTask with
      | again _ hRefuses =>
        exact Goes.many (.done (hRefuses _ hNeed other)) (Mode.behindGap_idem ..)
  | @many body mode text middle stop parts others hBody hAgain ihBody ihAgain =>
    cases hOutcome
    cases hTask with
    | many hTask =>
      have hMore := ihAgain hMode rfl trivial hTask hBehind hNeed
      cases hTask with
      | again hTaskBody _ hGuards =>
        have hMiddle := hBehind.append (Piece.textOf others)
        rw [← hAgain.text_eq] at hMiddle
        have hStart := ihBody hMode rfl hText hTaskBody hMiddle (hGuards hMore hNeed)
        rw [Piece.textOf_append, List.append_assoc]
        exact Goes.many (Goes.more hStart hMore) (Mode.behindGap_idem ..)
  | againNone =>
    cases hOutcome
    cases hTask with
    | again _ hRefuses => exact .done (hRefuses _ hNeed other)
  | @again body mode text middle stop parts others hBody hAgain ihBody ihAgain =>
    subst hMode
    cases hOutcome
    have hMore := ihAgain rfl rfl trivial hTask hBehind hNeed
    cases hTask with
    | again hTaskBody _ hGuards =>
      have hMiddle := hBehind.append (Piece.textOf others)
      rw [← hAgain.text_eq] at hMiddle
      have hStart := ihBody rfl rfl (Mode.behindGap_idem ..) hTaskBody hMiddle (hGuards hMore hNeed)
      simp only [Piece.textOf_append, Piece.textOf_chars, List.append_assoc,
        Mode.behindGap_gap_append]
      exact Goes.more hStart hMore

end Reads

section Samples

/-- A text that begins with no gap and is read by a rule as a whole. -/
def IsWholeText (grammar : Grammar R) (rule : R) (text : List Char) : Prop :=
  Mode.initial.behindGap grammar.isBlank text = text ∧ ∃ length pieces,
    Reads grammar length (.once (.rule rule)) .initial text (some (pieces, []))

/-- A text for an expression, given a text for each rule. A blank stands before each rule. -/
def Expr.sample (textOf : R → List Char) : Expr R → List Char
  | .rule r => ' ' :: textOf r
  | .seq first second => first.sample textOf ++ second.sample textOf
  | .choice first _ => first.sample textOf
  | .literal _ | .word _ | .oneOf _ | .atStart | .atEnd | .optional _ | .many _ | .unless _ => []

/-- A text for a task. No further round is needed. -/
def Task.sample (textOf : R → List Char) : Task R → List Char
  | once expr => expr.sample textOf
  | again _ => []

variable {grammar : Grammar R} {quiet known : R → Bool} {needOf : R → List Char → Prop}
  {need : List Char → Prop} {task : Task R} {rest : List Char} {textOf : R → List Char}

/-- Samples begin with a blank or like what stands behind them. -/
theorem Expr.beginsLike_sample (hBlank : grammar.isBlank ' ' = true) (expr : Expr R)
    (h : BeginsLike grammar.isBlank [] rest) :
    BeginsLike grammar.isBlank [] (expr.sample textOf ++ rest) := by
  induction expr generalizing rest with
  | rule rule =>
    rintro c ⟨⟩
    exact .inl hBlank
  | seq first second ihFirst ihSecond =>
    rw [Expr.sample, List.append_assoc]
    exact ihFirst (ihSecond h)
  | choice first second ih => exact ih h
  | _ => exact h

/-- A task is read where its sample stands, in front of a text that fulfils its need. -/
theorem Resumes.goes_sample (length : Nat) (h : Resumes grammar known needOf task need)
    (hRules : ∀ rule, known rule = true → IsResumed grammar quiet known needOf rule)
    (hBlank : grammar.isBlank ' ' = true)
    (hTexts : ∀ rule, known rule = true → IsWholeText grammar rule (textOf rule))
    (hRest : BeginsLike grammar.isBlank [] rest)
    (hNeed : need (Mode.initial.behindGap grammar.isBlank rest)) :
    Goes grammar length task (Mode.initial.behindGap grammar.isBlank (task.sample textOf ++ rest))
      (Mode.initial.behindGap grammar.isBlank rest) := by
  induction h generalizing rest with
  | @rule rule need hRule hImplies =>
    obtain ⟨hGap, _, pieces, hReads⟩ := hTexts rule hRule
    have hGoes := hReads.goes length hRules rfl rfl hGap (.rule hRule hImplies) hRest hNeed
    have hText := hReads.text_eq
    rw [List.append_nil] at hText
    rw [← hText] at hGoes
    have hSkip : Mode.initial.behindGap grammar.isBlank (' ' :: (textOf rule ++ rest)) =
        Mode.initial.behindGap grammar.isBlank (textOf rule ++ rest) :=
      List.dropWhile_cons_of_pos hBlank
    rwa [← hSkip] at hGoes
  | @seq first second need other _ _ hGuards ihFirst ihSecond =>
    have hMore := ihSecond hRest hNeed
    have hStart := ihFirst (second.beginsLike_sample hBlank hRest) (hGuards hMore hNeed)
    rw [Task.sample, Expr.sample, List.append_assoc]
    exact hStart.seq hMore
  | choice _ _ _ ihFirst => exact Accepts.choiceFirst (ihFirst hRest hNeed)
  | many _ ih => exact Goes.many (ih hRest hNeed) (Mode.behindGap_idem ..)
  | again _ hRefuses => exact .done (hRefuses _ hNeed length)

end Samples

end RowFilter.Grammar
