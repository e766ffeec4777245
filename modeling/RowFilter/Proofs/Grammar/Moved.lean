import RowFilter.Proofs.Grammar.Piece

/-! Matches of one text at two places. Pieces show the same matches wherever
they are located, and all of these are moved by the same number of bytes. -/

namespace RowFilter.Grammar

variable {R : Type}

namespace Node

mutual

/-- Whether a match is of the same rules as another one that stands some bytes before it. -/
def Moved (bytes : Nat) : Node R → Node R → Prop
  | .node rule start stop parts, .node other first last others =>
    rule = other ∧ start.offset = first.offset + bytes ∧ stop.offset = last.offset + bytes ∧
      AllMoved bytes parts others

def AllMoved (bytes : Nat) : List (Node R) → List (Node R) → Prop
  | [], [] => True
  | first :: nodes, second :: others => Moved bytes first second ∧ AllMoved bytes nodes others
  | _, _ => False

end

variable {bytes : Nat} {node other : Node R} {nodes others : List (Node R)}

namespace Moved

theorem rule_eq (h : Moved bytes node other) : node.rule = other.rule := by
  cases node
  cases other
  exact h.1

theorem start_eq (h : Moved bytes node other) :
    node.start.offset = other.start.offset + bytes := by
  cases node
  cases other
  exact h.2.1

theorem stop_eq (h : Moved bytes node other) : node.stop.offset = other.stop.offset + bytes := by
  cases node
  cases other
  exact h.2.2.1

theorem parts (h : Moved bytes node other) : AllMoved bytes node.parts other.parts := by
  cases node
  cases other
  exact h.2.2.2

end Moved

theorem AllMoved.exists_cons (h : AllMoved bytes (node :: nodes) others) :
    ∃ other rest, others = other :: rest ∧ Moved bytes node other ∧ AllMoved bytes nodes rest := by
  cases others with
  | nil => exact h.elim
  | cons other rest => exact ⟨other, rest, rfl, h.1, h.2⟩

end Node

namespace Piece

/-- Pieces show the same matches at two places. The induction is on the pieces and on those of
each match among them. -/
theorem allMoved_locateAll {bytes : Nat} {start other : Cursor}
    (pieces : List (Piece R)) (hOffset : start.offset = other.offset + bytes) :
    Node.AllMoved bytes (locateAll start pieces) (locateAll other pieces) := by
  match pieces with
  | [] => trivial
  | .char c :: pieces =>
    apply allMoved_locateAll pieces
    rw [Cursor.offset_past, Cursor.offset_past, hOffset, Nat.add_right_comm]
  | .shown rule parts :: pieces =>
    have hPast : (start.past (textOf parts)).offset =
        (other.past (textOf parts)).offset + bytes := by
      rw [Cursor.offset_past, Cursor.offset_past, hOffset, Nat.add_right_comm]
    exact ⟨⟨rfl, hOffset, hPast, allMoved_locateAll parts hOffset⟩,
      allMoved_locateAll pieces hPast⟩

end Piece

end RowFilter.Grammar
