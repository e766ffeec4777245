import RowFilter.Proofs.Grammar.Atomic

/-! How expressions read texts that are known in advance. `Accepts` says what
an expression leaves of a text and which matches it shows, up to a gap that
may be skipped, since repetitions keep the gap behind a failed round to
themselves at times. `Refuses` says that it fails. -/

namespace RowFilter.Grammar

variable {R : Type}

/-- An expression reads a text and leaves the rest of it behind a gap. The
matches that it shows have a property. -/
def Accepts (grammar : Grammar R) (length : Nat) (expr : Expr R) (mode : Mode)
    (text rest : List Char) (P : List (Node R) → Prop) : Prop :=
  ∀ start : Cursor, start.rest = text → ∃ nodes stop,
    Matches grammar length (.once expr) mode start nodes stop ∧
      mode.behindGap grammar.isBlank stop.rest = rest ∧ P nodes

/-- An expression fails at a text. -/
def Refuses (grammar : Grammar R) (length : Nat) (expr : Expr R) (mode : Mode)
    (text : List Char) : Prop :=
  Reads grammar length (.once expr) mode text none

/-- Further rounds of an expression read a text behind a gap. -/
def Continues (grammar : Grammar R) (length : Nat) (expr : Expr R) (mode : Mode)
    (text rest : List Char) (P : List (Node R) → Prop) : Prop :=
  ∀ start : Cursor, mode.behindGap grammar.isBlank start.rest = text → ∃ nodes stop,
    Matches grammar length (.again expr) mode start nodes stop ∧
      mode.behindGap grammar.isBlank stop.rest = rest ∧ P nodes

/-- Matches with one property in front of matches with another one. -/
def Joined (P Q : List (Node R) → Prop) (nodes : List (Node R)) : Prop :=
  ∃ first second, nodes = first ++ second ∧ P first ∧ Q second

/-- A single match of a rule whose parts have a property. -/
def IsShown (rule : R) (P : List (Node R) → Prop) (nodes : List (Node R)) : Prop :=
  ∃ start stop parts, nodes = [.node rule start stop parts] ∧ P parts

/-- A single match of a rule that spells a text and has no parts. -/
def IsWord (rule : R) (text : List Char) (nodes : List (Node R)) : Prop :=
  ∃ node, nodes = [node] ∧ node.rule = rule ∧ node.parts = [] ∧ node.text = String.ofList text

theorem IsWord.isShown {rule : R} {text : List Char} {nodes : List (Node R)}
    (h : IsWord rule text nodes) : IsShown rule (· = []) nodes := by
  obtain ⟨node, rfl, rfl, hParts, -⟩ := h
  cases node with
  | node rule start stop parts => exact ⟨start, stop, parts, rfl, hParts⟩

variable {grammar : Grammar R} {length : Nat} {expr first second : Expr R} {mode : Mode}

namespace Matches

variable {start middle stop : Cursor} {nodes others : List (Node R)}

/-- A rule matches where its body does, and shows the match if matches are recorded. -/
theorem rule {rule : R} (h : Matches grammar length (.once (grammar.body rule))
      ((grammar.kind rule).inside mode) start nodes stop) :
    Matches grammar length (.once (.rule rule)) mode start
      (if grammar.shows rule mode then [.node rule start stop nodes] else nodes) stop := by
  obtain ⟨pieces, hReads, rfl, hStop⟩ := h
  have hRule := Reads.rule hReads
  cases hShows : grammar.shows rule mode with
  | false =>
    rw [Outcome.ofBody, hShows] at hRule
    exact ⟨pieces, hRule, rfl, hStop⟩
  | true =>
    rw [Outcome.ofBody, hShows, if_pos rfl, Option.map_some] at hRule
    refine ⟨_, hRule, ?_, ?_⟩
    · rw [if_pos rfl, Piece.locateAll_shown, ← hStop]
    · rwa [Piece.textOf_shown]

/-- A sequence matches where its expressions do, with what is skipped in between. -/
theorem seq (hFirst : Matches grammar length (.once first) mode start nodes middle)
    (hSecond : Matches grammar length (.once second) mode (mode.skip grammar.isBlank middle)
      others stop) :
    Matches grammar length (.once (.seq first second)) mode start (nodes ++ others) stop := by
  obtain ⟨pieces, hFirstReads, rfl, rfl⟩ := hFirst
  obtain ⟨otherPieces, hSecondReads, rfl, hStop⟩ := hSecond
  have hSkip := Mode.skip_eq mode grammar.isBlank (start.past (Piece.textOf pieces))
  rw [Mode.rest_skip] at hSecondReads
  refine ⟨_, .seq hFirstReads hSecondReads, ?_, ?_⟩
  · rw [hSkip]
    simp
  · rw [hStop, hSkip]
    simp [Cursor.past_append]

theorem choiceFirst (h : Matches grammar length (.once first) mode start nodes stop) :
    Matches grammar length (.once (.choice first second)) mode start nodes stop := by
  obtain ⟨pieces, hReads, hNodes, hStop⟩ := h
  exact ⟨pieces, .choiceFirst hReads, hNodes, hStop⟩

theorem choiceSecond (hFirst : Refuses grammar length first mode start.rest)
    (h : Matches grammar length (.once second) mode start nodes stop) :
    Matches grammar length (.once (.choice first second)) mode start nodes stop := by
  obtain ⟨pieces, hReads, hNodes, hStop⟩ := h
  exact ⟨pieces, .choiceSecond hFirst hReads, hNodes, hStop⟩

/-- A further round matches behind what is skipped. -/
theorem again (hBody : Matches grammar length (.once expr) mode
      (mode.skip grammar.isBlank start) nodes middle)
    (hAgain : Matches grammar length (.again expr) mode middle others stop) :
    Matches grammar length (.again expr) mode start (nodes ++ others) stop := by
  obtain ⟨pieces, hBodyReads, rfl, rfl⟩ := hBody
  obtain ⟨otherPieces, hAgainReads, rfl, hStop⟩ := hAgain
  have hSkip := Mode.skip_eq mode grammar.isBlank start
  rw [Mode.rest_skip] at hBodyReads
  refine ⟨_, .again hBodyReads hAgainReads, ?_, ?_⟩
  · rw [hSkip]
    simp
  · rw [hStop, hSkip]
    simp [Cursor.past_append]

/-- Where there is no gap, rounds are read alike from the first one on. -/
theorem many (hGap : mode.behindGap grammar.isBlank start.rest = start.rest)
    (h : Matches grammar length (.again expr) mode start nodes stop) :
    Matches grammar length (.once (.many expr)) mode start nodes stop := by
  obtain ⟨pieces, hReads, hNodes, hStop⟩ := h
  refine ⟨pieces, ?_, hNodes, hStop⟩
  generalize hRest : stop.rest = rest at hReads
  have hNoGap : mode.gap grammar.isBlank start.rest = [] := by
    have hSplit := mode.gap_append_behindGap grammar.isBlank start.rest
    rw [hGap] at hSplit
    exact List.append_left_eq_self.1 hSplit
  cases hReads with
  | againNone hBody =>
    rw [hGap] at hBody
    exact .manyNone hBody
  | again hBody hAgain =>
    rw [hGap] at hBody
    rw [hNoGap]
    exact .many hBody hAgain

end Matches

variable {text middle rest taken behind : List Char} {P Q : List (Node R) → Prop} {rule : R}

namespace Refuses

/-- A rule fails where its body does. -/
theorem of_body (h : Refuses grammar length (grammar.body rule) ((grammar.kind rule).inside mode)
      text) : Refuses grammar length (.rule rule) mode text :=
  Reads.rule_none.2 h

/-- An atomic rule fails wherever it is tried. -/
theorem of_fails (h : Fails grammar length (.rule rule) text)
    (hKind : grammar.kind rule = .atomic) : Refuses grammar length (.rule rule) mode text := by
  rw [Fails, Reads.rule_none, Kind.inside_atomic] at h
  apply of_body
  rw [hKind]
  exact h

theorem literal {word : String}
    (h : takeAll? (word.toList.map fun a b => a = b) text = none) :
    Refuses grammar length (.literal word) mode text := by
  have hReads : Reads grammar length (.once (.literal word)) mode text _ :=
    .literal word mode text
  rwa [h] at hReads

theorem seqFirst (h : Refuses grammar length first mode text) :
    Refuses grammar length (.seq first second) mode text :=
  Reads.seqFirst h

theorem seqSecond (hFirst : Accepts grammar length first mode text middle P)
    (hSecond : Refuses grammar length second mode middle) :
    Refuses grammar length (.seq first second) mode text := by
  obtain ⟨nodes, stop, ⟨pieces, hReads, -⟩, rfl, -⟩ := hFirst (.ofText text) rfl
  exact Reads.seqSecond hReads hSecond

theorem choice (hFirst : Refuses grammar length first mode text)
    (hSecond : Refuses grammar length second mode text) :
    Refuses grammar length (.choice first second) mode text :=
  Reads.choiceSecond hFirst hSecond

end Refuses

namespace Accepts

theorem mono (h : Accepts grammar length expr mode text rest P)
    (hImp : ∀ nodes, P nodes → Q nodes) : Accepts grammar length expr mode text rest Q := by
  intro start hStart
  obtain ⟨nodes, stop, hMatches, hStop, hNodes⟩ := h start hStart
  exact ⟨nodes, stop, hMatches, hStop, hImp nodes hNodes⟩

private theorem of_body {inner : Mode}
    (h : Accepts grammar length (grammar.body rule) inner text rest P)
    (hInside : (grammar.kind rule).inside mode = inner) {start : Cursor}
    (hStart : start.rest = text) :
    ∃ nodes stop, Matches grammar length (.once (.rule rule)) mode start
        (if grammar.shows rule mode then [.node rule start stop nodes] else nodes) stop ∧
      inner.behindGap grammar.isBlank stop.rest = rest ∧ P nodes := by
  subst hInside
  obtain ⟨nodes, stop, hMatches, hStop, hNodes⟩ := h start hStart
  exact ⟨nodes, stop, hMatches.rule, hStop, hNodes⟩

/-- A silent rule is read like its body. -/
theorem silent (h : Accepts grammar length (grammar.body rule) mode text rest P)
    (hKind : grammar.kind rule = .silent) :
    Accepts grammar length (.rule rule) mode text rest P := by
  intro start hStart
  obtain ⟨nodes, stop, hRule, hStop, hNodes⟩ := h.of_body (by rw [hKind]; rfl) hStart
  rw [if_neg (by simp [shows, hKind])] at hRule
  exact ⟨nodes, stop, hRule, hStop, hNodes⟩

/-- A normal rule shows a match with those of its body. -/
theorem normal (h : Accepts grammar length (grammar.body rule) mode text rest P)
    (hKind : grammar.kind rule = .normal) (hMode : mode.records = true) :
    Accepts grammar length (.rule rule) mode text rest (IsShown rule P) := by
  intro start hStart
  obtain ⟨nodes, stop, hRule, hStop, hNodes⟩ := h.of_body (by rw [hKind]; rfl) hStart
  rw [if_pos (by simp [shows, hKind, hMode])] at hRule
  exact ⟨_, stop, hRule, hStop, start, stop, nodes, rfl, hNodes⟩

/-- An atomic rule shows the text that it takes. -/
theorem atomic (h : Takes grammar length (.rule rule) text taken behind)
    (hKind : grammar.kind rule = .atomic) (hMode : mode.records = true) :
    Accepts grammar length (.rule rule) mode text (mode.behindGap grammar.isBlank behind)
      (IsWord rule taken) := by
  intro start hStart
  have hText : start.rest = taken ++ behind := hStart.trans h.text_eq
  have hRest := Cursor.rest_past hText
  have hBody : Matches grammar length (.once (grammar.body rule))
      ((grammar.kind rule).inside mode) start [] (start.past taken) := by
    rw [hKind]
    refine ⟨Piece.chars taken, ?_, (Piece.locateAll_chars ..).symm, by rw [Piece.textOf_chars]⟩
    rw [hRest, hStart]
    exact takes_rule.1 h
  have hRule := hBody.rule
  rw [if_pos (by simp [shows, hKind, hMode])] at hRule
  refine ⟨_, _, hRule, by rw [hRest], _, rfl, rfl, rfl, ?_⟩
  exact congrArg String.ofList (Cursor.textTo_past hText)

/-- A word is read where it stands. -/
theorem literal {word : String} :
    Accepts grammar length (.literal word) mode (word.toList ++ behind)
      (mode.behindGap grammar.isBlank behind) (· = []) := by
  intro start hStart
  have hTake : takeAll? (word.toList.map fun a b => decide (a = b)) start.rest =
      some (word.toList, behind) := by
    rw [hStart]
    exact takeAll?_equal.2 ⟨rfl, rfl⟩
  have hReads : Reads grammar length (.once (.literal word)) mode start.rest _ :=
    .literal word mode start.rest
  rw [hTake] at hReads
  have hRest := Cursor.rest_past hStart
  refine ⟨[], start.past word.toList, ⟨Piece.chars word.toList, ?_, ?_, ?_⟩, ?_, rfl⟩
  · rw [hRest]
    exact hReads
  · exact (Piece.locateAll_chars ..).symm
  · rw [Piece.textOf_chars]
  · rw [hRest]

theorem atStart (h : text.length = length) :
    Accepts grammar length .atStart mode text (mode.behindGap grammar.isBlank text) (· = []) := by
  intro start hStart
  have hReads : Reads grammar length (.once .atStart) mode start.rest _ :=
    .atStart mode start.rest
  rw [hStart, if_pos h] at hReads
  exact ⟨[], start, ⟨[], by rwa [hStart], rfl, rfl⟩, by rw [hStart], rfl⟩

theorem atEnd :
    Accepts grammar length .atEnd mode [] (mode.behindGap grammar.isBlank []) (· = []) := by
  intro start hStart
  have hReads : Reads grammar length (.once .atEnd) mode start.rest _ := .atEnd mode start.rest
  rw [hStart, List.isEmpty_nil, if_pos rfl] at hReads
  exact ⟨[], start, ⟨[], by rwa [hStart], rfl, rfl⟩, by rw [hStart], rfl⟩

/-- Two expressions are read one behind the other. -/
theorem seq (hFirst : Accepts grammar length first mode text middle P)
    (hSecond : Accepts grammar length second mode middle rest Q) :
    Accepts grammar length (.seq first second) mode text rest (Joined P Q) := by
  intro start hStart
  obtain ⟨nodes, next, hFirstMatches, hNext, hNodes⟩ := hFirst start hStart
  obtain ⟨others, stop, hSecondMatches, hStop, hOthers⟩ :=
    hSecond (mode.skip grammar.isBlank next) (by rw [Mode.rest_skip, hNext])
  exact ⟨_, stop, hFirstMatches.seq hSecondMatches, hStop, nodes, others, rfl, hNodes, hOthers⟩

theorem choiceFirst (h : Accepts grammar length first mode text rest P) :
    Accepts grammar length (.choice first second) mode text rest P := by
  intro start hStart
  obtain ⟨nodes, stop, hMatches, hStop, hNodes⟩ := h start hStart
  exact ⟨nodes, stop, hMatches.choiceFirst, hStop, hNodes⟩

theorem choiceSecond (hFirst : Refuses grammar length first mode text)
    (h : Accepts grammar length second mode text rest P) :
    Accepts grammar length (.choice first second) mode text rest P := by
  intro start hStart
  obtain ⟨nodes, stop, hMatches, hStop, hNodes⟩ := h start hStart
  exact ⟨nodes, stop, .choiceSecond (hStart ▸ hFirst) hMatches, hStop, hNodes⟩

/-- A repetition is read if its rounds are. -/
theorem many (h : Continues grammar length expr mode text rest P)
    (hGap : mode.behindGap grammar.isBlank text = text) :
    Accepts grammar length (.many expr) mode text rest P := by
  intro start hStart
  rw [← hStart] at hGap
  obtain ⟨nodes, stop, hMatches, hStop, hNodes⟩ := h start (hGap.trans hStart)
  exact ⟨nodes, stop, hMatches.many hGap, hStop, hNodes⟩

end Accepts

namespace Continues

theorem mono (h : Continues grammar length expr mode text rest P)
    (hImp : ∀ nodes, P nodes → Q nodes) : Continues grammar length expr mode text rest Q := by
  intro start hStart
  obtain ⟨nodes, stop, hMatches, hStop, hNodes⟩ := h start hStart
  exact ⟨nodes, stop, hMatches, hStop, hImp nodes hNodes⟩

/-- No round follows. -/
theorem done (h : Refuses grammar length expr mode text) :
    Continues grammar length expr mode text text (· = []) := by
  intro start hStart
  refine ⟨[], start, ⟨[], .againNone ?_, rfl, rfl⟩, hStart, rfl⟩
  rw [hStart]
  exact h

/-- A round is read in front of further rounds. -/
theorem more (hBody : Accepts grammar length expr mode text middle P)
    (hAgain : Continues grammar length expr mode middle rest Q) :
    Continues grammar length expr mode text rest (Joined P Q) := by
  intro start hStart
  obtain ⟨nodes, next, hBodyMatches, hNext, hNodes⟩ :=
    hBody (mode.skip grammar.isBlank start) (by rw [Mode.rest_skip, hStart])
  obtain ⟨others, stop, hAgainMatches, hStop, hOthers⟩ := hAgain next hNext
  exact ⟨_, stop, hBodyMatches.again hAgainMatches, hStop, nodes, others, rfl, hNodes, hOthers⟩

end Continues

end RowFilter.Grammar
