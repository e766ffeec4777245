import RowFilter.Proofs.Grammar.Matches

/-! The order of matches in a text. The matches below a node, each before its
parts, stand in the text in the same order, and a match without parts ends
before the next one begins. Atomic rules have matches without parts. -/

namespace RowFilter.Grammar

open Text

variable {R : Type}

namespace Node

mutual

/-- A match and the matches below it, each before its parts, left to right. -/
def preorder : Node R → List (Node R)
  | .node rule start stop parts => .node rule start stop parts :: preorderAll parts

def preorderAll : List (Node R) → List (Node R)
  | [] => []
  | first :: others => preorder first ++ preorderAll others

end

@[simp] theorem preorderAll_nil : preorderAll ([] : List (Node R)) = [] := rfl

theorem preorderAll_singleton (node : Node R) : preorderAll [node] = node.preorder := by
  rw [preorderAll, preorderAll_nil, List.append_nil]

theorem preorderAll_cons (rule : R) (start stop : Cursor) (parts others : List (Node R)) :
    preorderAll (.node rule start stop parts :: others) =
      .node rule start stop parts :: (preorderAll parts ++ preorderAll others) := by
  rw [preorderAll, preorder, List.cons_append]

@[simp] theorem preorderAll_append (first second : List (Node R)) :
    preorderAll (first ++ second) = preorderAll first ++ preorderAll second := by
  induction first with
  | nil => rfl
  | cons node first ih => rw [List.cons_append, preorderAll, preorderAll, ih, List.append_assoc]

theorem mem_preorderAll_of_mem {node : Node R} {nodes : List (Node R)} (h : node ∈ nodes) :
    node ∈ preorderAll nodes := by
  obtain ⟨before, behind, rfl⟩ := List.append_of_mem h
  obtain ⟨rule, start, stop, parts⟩ := node
  simp [preorderAll_cons]

/-- A match comes before another one if it has parts or ends before the other
one begins. -/
def Precedes (first second : Node R) : Prop :=
  first.parts ≠ [] ∨ first.stop.offset ≤ second.start.offset

end Node

namespace Piece

/-- Where the matches of some pieces are and how they follow each other. -/
private def Ordered (cursor : Cursor) (text : List Char) (nodes : List (Node R)) : Prop :=
  (∀ node ∈ nodes, cursor.offset ≤ node.start.offset ∧
    node.stop.offset ≤ (cursor.past text).offset) ∧
  nodes.Pairwise Node.Precedes

private theorem ordered_append {cursor : Cursor} {text rest : List Char}
    {first second : List (Node R)} (hFirst : Ordered cursor text first)
    (hSecond : Ordered (cursor.past text) rest second) :
    Ordered cursor (text ++ rest) (first ++ second) := by
  obtain ⟨hFirstPlaces, hFirstOrder⟩ := hFirst
  obtain ⟨hSecondPlaces, hSecondOrder⟩ := hSecond
  have hTextLe : cursor.offset ≤ (cursor.past text).offset := by
    rw [Cursor.offset_past]
    exact Nat.le_add_right _ _
  have hRestLe : (cursor.past text).offset ≤ ((cursor.past text).past rest).offset := by
    rw [Cursor.offset_past (cursor.past text)]
    exact Nat.le_add_right _ _
  refine ⟨fun node hNode => ?_, List.pairwise_append.2 ⟨hFirstOrder, hSecondOrder, ?_⟩⟩
  · rw [Cursor.past_append]
    rcases List.mem_append.1 hNode with hNode | hNode
    · obtain ⟨hStart, hStop⟩ := hFirstPlaces node hNode
      exact ⟨hStart, Nat.le_trans hStop hRestLe⟩
    · obtain ⟨hStart, hStop⟩ := hSecondPlaces node hNode
      exact ⟨Nat.le_trans hTextLe hStart, hStop⟩
  · intro a ha b hb
    exact .inr (Nat.le_trans (hFirstPlaces a ha).2 (hSecondPlaces b hb).1)

mutual

private theorem ordered_locate (cursor : Cursor) (piece : Piece R) :
    Ordered cursor piece.text (Node.preorderAll (piece.locate cursor)) := by
  cases piece with
  | char c => exact ⟨nofun, .nil⟩
  | shown rule pieces =>
    obtain ⟨hPlaces, hOrder⟩ := ordered_locateAll cursor pieces
    rw [locate, text, Node.preorderAll_cons, Node.preorderAll_nil, List.append_nil]
    refine ⟨fun node hNode => ?_, List.pairwise_cons.2 ⟨fun other hOther => ?_, hOrder⟩⟩
    · rcases List.mem_cons.1 hNode with rfl | hNode
      · exact ⟨Nat.le_refl _, Nat.le_refl _⟩
      · exact hPlaces node hNode
    · refine .inl fun hNil => ?_
      change locateAll cursor pieces = [] at hNil
      rw [hNil] at hOther
      cases hOther

private theorem ordered_locateAll (cursor : Cursor) (pieces : List (Piece R)) :
    Ordered cursor (textOf pieces) (Node.preorderAll (locateAll cursor pieces)) := by
  cases pieces with
  | nil => exact ⟨nofun, .nil⟩
  | cons piece pieces =>
    rw [locateAll, textOf, Node.preorderAll_append]
    exact ordered_append (ordered_locate cursor piece) (ordered_locateAll _ pieces)

end

variable {node : Node R}

mutual

private theorem exists_past_locate (cursor : Cursor) (piece : Piece R)
    (hNode : node ∈ Node.preorderAll (piece.locate cursor)) :
    ∃ before taken behind, piece.text = before ++ (taken ++ behind) ∧
      node.start = cursor.past before ∧ node.stop = node.start.past taken := by
  cases piece with
  | char c => cases hNode
  | shown rule pieces =>
    rw [locate, Node.preorderAll_cons, Node.preorderAll_nil, List.append_nil] at hNode
    rcases List.mem_cons.1 hNode with rfl | hNode
    · exact ⟨[], textOf pieces, [], (List.append_nil _).symm, rfl, rfl⟩
    · exact exists_past_locateAll cursor pieces hNode

private theorem exists_past_locateAll (cursor : Cursor) (pieces : List (Piece R))
    (hNode : node ∈ Node.preorderAll (locateAll cursor pieces)) :
    ∃ before taken behind, textOf pieces = before ++ (taken ++ behind) ∧
      node.start = cursor.past before ∧ node.stop = node.start.past taken := by
  cases pieces with
  | nil => cases hNode
  | cons piece pieces =>
    rw [locateAll, Node.preorderAll_append] at hNode
    rcases List.mem_append.1 hNode with hNode | hNode
    · obtain ⟨before, taken, behind, hText, hStart, hStop⟩ := exists_past_locate cursor piece hNode
      exact ⟨before, taken, behind ++ textOf pieces, by simp [textOf, hText], hStart, hStop⟩
    · obtain ⟨before, taken, behind, hText, hStart, hStop⟩ :=
        exists_past_locateAll (cursor.past piece.text) pieces hNode
      refine ⟨piece.text ++ before, taken, behind, by simp [textOf, hText], ?_, hStop⟩
      rw [hStart, Cursor.past_append]

end

end Piece

section Atomic

variable {grammar : Grammar R}

private def IsFlat (grammar : Grammar R) (pieces : List (Piece R)) : Prop :=
  ∀ cursor, ∀ node ∈ Node.preorderAll (Piece.locateAll cursor pieces),
    grammar.kind node.rule = .atomic → node.parts = []

private theorem isFlat_chars (text : List Char) : IsFlat grammar (Piece.chars text) := by
  intro cursor node hNode
  rw [Piece.locateAll_chars] at hNode
  cases hNode

private theorem IsFlat.append {first second : List (Piece R)} (hFirst : IsFlat grammar first)
    (hSecond : IsFlat grammar second) : IsFlat grammar (first ++ second) := by
  intro cursor node hNode
  rw [Piece.locateAll_append, Node.preorderAll_append] at hNode
  rcases List.mem_append.1 hNode with hNode | hNode
  · exact hFirst _ node hNode
  · exact hSecond _ node hNode

private theorem IsFlat.shown {rule : R} {pieces : List (Piece R)} (hPieces : IsFlat grammar pieces)
    (hAtomic : grammar.kind rule = .atomic → pieces = Piece.chars (Piece.textOf pieces)) :
    IsFlat grammar [.shown rule pieces] := by
  intro cursor node hNode hKind
  rw [Piece.locateAll_shown, Node.preorderAll_cons, Node.preorderAll_nil, List.append_nil] at hNode
  rcases List.mem_cons.1 hNode with rfl | hNode
  · change Piece.locateAll cursor pieces = []
    rw [hAtomic hKind, Piece.locateAll_chars]
  · exact hPieces cursor node hNode hKind

private theorem Reads.isFlat {length : Nat} {task : Task R} {mode : Mode} {text rest : List Char}
    {pieces : List (Piece R)} (h : Reads grammar length task mode text (some (pieces, rest))) :
    IsFlat grammar pieces := by
  generalize hOutcome : (some (pieces, rest) : Outcome R) = outcome at h
  induction h generalizing pieces rest with
  | literal | word | oneOf =>
    obtain ⟨taken, -, rfl⟩ := Outcome.ofTaken_eq_some.1 hOutcome.symm
    exact isFlat_chars taken
  | atStart | atEnd =>
    split at hOutcome <;> cases hOutcome
    exact isFlat_chars []
  | @rule rule mode text outcome hBody ih =>
    rw [Outcome.ofBody] at hOutcome
    split at hOutcome
    · obtain ⟨⟨parts, stop⟩, rfl, hEq⟩ := Option.map_eq_some_iff.1 hOutcome.symm
      cases hEq
      refine (ih rfl).shown fun hKind => hBody.eq_chars ?_
      rw [hKind]
      rfl
    · exact ih hOutcome
  | seqFirst | seqSecond | unlessSome => cases hOutcome
  | seq _ _ ihFirst ihSecond =>
    cases hOutcome
    exact ((ihFirst rfl).append (isFlat_chars _)).append (ihSecond rfl)
  | choiceFirst _ ih | optionalSome _ ih => exact ih hOutcome
  | choiceSecond _ _ _ ih => exact ih hOutcome
  | optionalNone | unlessNone | manyNone | againNone =>
    cases hOutcome
    exact isFlat_chars []
  | many _ _ ihBody ihAgain =>
    cases hOutcome
    exact (ihBody rfl).append (ihAgain rfl)
  | again _ _ ihBody ihAgain =>
    cases hOutcome
    exact ((isFlat_chars _).append (ihBody rfl)).append (ihAgain rfl)

end Atomic

/-- Skipping a gap moves forwards. -/
theorem Mode.offset_le_skip (mode : Mode) (isBlank : Char → Bool) (cursor : Cursor) :
    cursor.offset ≤ (mode.skip isBlank cursor).offset := by
  rw [Mode.skip_eq, Cursor.offset_past]
  exact Nat.le_add_right ..

namespace Matches

variable {grammar : Grammar R} {length : Nat} {task : Task R} {mode : Mode}
  {start stop : Cursor} {nodes : List (Node R)}

/-- The preorder of the matches of a text is the order in which they stand in it. -/
theorem pairwise_preorderAll (h : Matches grammar length task mode start nodes stop) :
    (Node.preorderAll nodes).Pairwise Node.Precedes := by
  obtain ⟨pieces, -, rfl, -⟩ := h
  exact (Piece.ordered_locateAll start pieces).2

/-- A match among others takes a piece of what they take. -/
theorem exists_past (h : Matches grammar length task mode start nodes stop) {node : Node R}
    (hNode : node ∈ Node.preorderAll nodes) :
    ∃ before taken behind, start.rest = before ++ (taken ++ (behind ++ stop.rest)) ∧
      stop = start.past (before ++ (taken ++ behind)) ∧
      node.start = start.past before ∧ node.stop = node.start.past taken := by
  obtain ⟨pieces, hReads, rfl, rfl⟩ := h
  obtain ⟨before, taken, behind, hText, hStart, hStop⟩ :=
    Piece.exists_past_locateAll start pieces hNode
  refine ⟨before, taken, behind, ?_, by rw [hText], hStart, hStop⟩
  rw [hReads.text_eq]
  simp [hText]

/-- The matches of a text begin within it. -/
theorem start_standsIn (h : Matches grammar length task mode start nodes stop) {text : List Char}
    (hStands : start.StandsIn text) {node : Node R} (hNode : node ∈ Node.preorderAll nodes) :
    node.start.StandsIn text := by
  obtain ⟨before, taken, behind, hRest, -, hStart, -⟩ := h.exists_past hNode
  rw [hStart]
  exact hStands.past hRest

/-- A match takes the text between its two cursors. -/
theorem exists_taken (h : Matches grammar length task mode start nodes stop) :
    ∃ taken, start.rest = taken ++ stop.rest ∧ stop = start.past taken := by
  obtain ⟨pieces, hReads, -, hStop⟩ := h
  exact ⟨_, hReads.text_eq, hStop⟩

/-- A match ends in its text. -/
theorem stop_standsIn (h : Matches grammar length task mode start nodes stop) {text : List Char}
    (hStands : start.StandsIn text) : stop.StandsIn text := by
  obtain ⟨taken, hRest, rfl⟩ := h.exists_taken
  exact hStands.past hRest

/-- A match does not end before it starts. -/
theorem offset_le (h : Matches grammar length task mode start nodes stop) :
    start.offset ≤ stop.offset := by
  obtain ⟨taken, -, rfl⟩ := h.exists_taken
  rw [Cursor.offset_past]
  exact Nat.le_add_right ..

/-- What takes a character moves on. -/
theorem offset_lt {rank : R → Nat} {consuming : R → Bool} {expr : Expr R}
    (h : Matches grammar length (.once expr) mode start nodes stop)
    (hRanked : Ranked grammar rank consuming) (hConsumes : expr.consumes consuming = true) :
    start.offset < stop.offset := by
  have hLt := h.length_lt hRanked hConsumes
  obtain ⟨taken, hRest, rfl⟩ := h.exists_taken
  rw [Cursor.offset_past]
  apply Nat.lt_add_of_pos_right (Nat.pos_of_ne_zero fun hZero => ?_)
  rw [byteLength_eq_zero.1 hZero] at hLt
  exact Nat.lt_irrefl _ hLt

/-- The match of an atomic rule has no parts. -/
theorem parts_eq_nil (h : Matches grammar length task mode start nodes stop) {node : Node R}
    (hNode : node ∈ Node.preorderAll nodes) (hKind : grammar.kind node.rule = .atomic) :
    node.parts = [] := by
  obtain ⟨pieces, hReads, rfl, -⟩ := h
  exact hReads.isFlat start node hNode hKind

end Matches

end RowFilter.Grammar
