import RowFilter.Proofs.Grammar.Piece

/-! Matches of texts that differ in ways that do not matter. Matches are alike
if they are of the same rules, part by part, and spell the same text where
their rule keeps it. Pieces are alike if the matches they show are, whatever
characters stand between these. Alike pieces show alike matches wherever they
are located. -/

namespace RowFilter.Grammar

variable {R : Type}

namespace Node

mutual

/-- Whether two matches are of the same rules. The rules that are kept spell the same text. -/
def Alike (keeps : R → Bool) : Node R → Node R → Prop
  | .node rule start stop parts, .node other first last others =>
    rule = other ∧ (keeps rule = true → start.textTo stop = first.textTo last) ∧
      AllAlike keeps parts others

def AllAlike (keeps : R → Bool) : List (Node R) → List (Node R) → Prop
  | [], [] => True
  | first :: nodes, second :: others => Alike keeps first second ∧ AllAlike keeps nodes others
  | _, _ => False

end

variable {keeps : R → Bool} {node other : Node R} {nodes others first second : List (Node R)}

namespace Alike

theorem rule_eq (h : Alike keeps node other) : node.rule = other.rule := by
  cases node
  cases other
  exact h.1

/-- Alike matches of a kept rule have the same text. -/
theorem text_eq (h : Alike keeps node other) (hKeeps : keeps node.rule = true) :
    node.text = other.text := by
  cases node
  cases other
  exact congrArg String.ofList (h.2.1 hKeeps)

theorem parts (h : Alike keeps node other) : AllAlike keeps node.parts other.parts := by
  cases node
  cases other
  exact h.2.2

theorem exists_eq {rule : R} {start stop : Cursor} {parts : List (Node R)}
    (h : Alike keeps (.node rule start stop parts) other) :
    ∃ first last others, other = .node rule first last others ∧ AllAlike keeps parts others := by
  cases other with
  | node rule first last others =>
    obtain ⟨rfl, -, hParts⟩ := h
    exact ⟨first, last, others, rfl, hParts⟩

end Alike

namespace AllAlike

theorem eq_nil (h : AllAlike keeps [] others) : others = [] := by
  cases others with
  | nil => rfl
  | cons => exact h.elim

theorem exists_cons (h : AllAlike keeps (node :: nodes) others) :
    ∃ other rest, others = other :: rest ∧ Alike keeps node other ∧
      AllAlike keeps nodes rest := by
  cases others with
  | nil => exact h.elim
  | cons other rest => exact ⟨other, rest, rfl, h.1, h.2⟩

theorem exists_singleton (h : AllAlike keeps [node] others) :
    ∃ other, others = [other] ∧ Alike keeps node other := by
  obtain ⟨other, rest, rfl, hNode, hRest⟩ := h.exists_cons
  rw [hRest.eq_nil]
  exact ⟨other, rfl, hNode⟩

theorem append (h : AllAlike keeps nodes others) (hMore : AllAlike keeps first second) :
    AllAlike keeps (nodes ++ first) (others ++ second) := by
  induction nodes generalizing others with
  | nil =>
    obtain rfl := h.eq_nil
    exact hMore
  | cons node nodes ih =>
    obtain ⟨other, rest, rfl, hNode, hRest⟩ := h.exists_cons
    exact ⟨hNode, ih hRest⟩

theorem exists_append (h : AllAlike keeps (first ++ second) nodes) :
    ∃ before behind, nodes = before ++ behind ∧ AllAlike keeps first before ∧
      AllAlike keeps second behind := by
  induction first generalizing nodes with
  | nil => exact ⟨[], nodes, rfl, trivial, h⟩
  | cons node first ih =>
    obtain ⟨other, rest, rfl, hNode, hRest⟩ := h.exists_cons
    obtain ⟨before, behind, rfl, hBefore, hBehind⟩ := ih hRest
    exact ⟨other :: before, behind, rfl, ⟨hNode, hBefore⟩, hBehind⟩

end AllAlike

end Node

namespace Piece

/-- Pieces that show matches of the same rules. The rules that are kept spell the same text. -/
inductive AllAlike (keeps : R → Bool) : List (Piece R) → List (Piece R) → Prop where
  | nil : AllAlike keeps [] []
  | charLeft (c : Char) {pieces others : List (Piece R)} (h : AllAlike keeps pieces others) :
      AllAlike keeps (.char c :: pieces) others
  | charRight (c : Char) {pieces others : List (Piece R)} (h : AllAlike keeps pieces others) :
      AllAlike keeps pieces (.char c :: others)
  | shown {rule : R} {parts otherParts pieces others : List (Piece R)}
      (hText : keeps rule = true → textOf parts = textOf otherParts)
      (hParts : AllAlike keeps parts otherParts) (h : AllAlike keeps pieces others) :
      AllAlike keeps (.shown rule parts :: pieces) (.shown rule otherParts :: others)

variable {keeps : R → Bool}

namespace AllAlike

variable {pieces others first second : List (Piece R)}

theorem append (h : AllAlike keeps pieces others) (hMore : AllAlike keeps first second) :
    AllAlike keeps (pieces ++ first) (others ++ second) := by
  induction h with
  | nil => exact hMore
  | charLeft c _ ih => exact .charLeft c ih
  | charRight c _ ih => exact .charRight c ih
  | shown hText hParts _ _ ih => exact .shown hText hParts ih

/-- Characters show no match. -/
theorem chars (text other : List Char) : AllAlike keeps (Piece.chars text) (Piece.chars other) := by
  induction text with
  | cons c text ih => exact .charLeft c ih
  | nil =>
    induction other with
    | nil => exact .nil
    | cons c other ih => exact .charRight c ih

theorem singleton {rule : R} {parts otherParts : List (Piece R)}
    (hText : keeps rule = true → textOf parts = textOf otherParts)
    (hParts : AllAlike keeps parts otherParts) :
    AllAlike keeps [.shown rule parts] [.shown rule otherParts] :=
  .shown hText hParts .nil

/-- Alike pieces show alike matches. -/
theorem locateAll {start other : Cursor} {rest behind : List Char}
    (h : AllAlike keeps pieces others) (hStart : start.rest = textOf pieces ++ rest)
    (hOther : other.rest = textOf others ++ behind) :
    Node.AllAlike keeps (locateAll start pieces) (locateAll other others) := by
  induction h generalizing start other rest behind with
  | nil => exact trivial
  | charLeft c _ ih => exact ih (Cursor.rest_past (show start.rest = [c] ++ _ from hStart)) hOther
  | charRight c _ ih => exact ih hStart (Cursor.rest_past (show other.rest = [c] ++ _ from hOther))
  | @shown rule parts otherParts pieces others hText _ _ ihParts ih =>
    rw [textOf, text, List.append_assoc] at hStart hOther
    refine ⟨⟨rfl, fun hKeeps => ?_, ihParts hStart hOther⟩,
      ih (Cursor.rest_past hStart) (Cursor.rest_past hOther)⟩
    rw [Cursor.textTo_past hStart, Cursor.textTo_past hOther, hText hKeeps]

end AllAlike

/-- The induction is on the pieces and on those of each match among them. -/
theorem allAlike_self (pieces : List (Piece R)) : AllAlike keeps pieces pieces := by
  match pieces with
  | [] => exact .nil
  | .char c :: pieces => exact .charLeft c (.charRight c (allAlike_self pieces))
  | .shown rule parts :: pieces =>
    exact .shown (fun _ => rfl) (allAlike_self parts) (allAlike_self pieces)

end Piece

end RowFilter.Grammar
