import RowFilter.Proofs.Grammar.Trailing

/-! Matches in two texts that begin alike. A copy of a match stands at the same
place of another text and spells the same there. Where blanks are added at the
end of a text, all matches are copied but those that take the blanks. -/

namespace RowFilter.Grammar

variable {R : Type}

/-- Whether two cursors are as far from the beginnings of their texts. -/
structure Cursor.IsLevel (start other : Cursor) : Prop where
  offset_eq : start.offset = other.offset
  position_eq : start.position = other.position

/-- Cursors stay level behind the same text. -/
theorem Cursor.IsLevel.past {start other : Cursor} (h : start.IsLevel other) (text : List Char) :
    (start.past text).IsLevel (other.past text) := by
  induction text generalizing start other with
  | nil => exact h
  | cons c text ih =>
    refine ih ⟨?_, ?_⟩
    · exact congrArg (· + c.utf8Size) h.offset_eq
    · exact congrArg (·.advance c) h.position_eq

namespace Node

mutual

/-- Whether two matches are the same but for what stands behind them. -/
def Copied : Node R → Node R → Prop
  | .node rule start stop parts, .node other first last others =>
    rule = other ∧ start.IsLevel first ∧ stop.IsLevel last ∧
      start.textTo stop = first.textTo last ∧ AllCopied parts others

def AllCopied : List (Node R) → List (Node R) → Prop
  | [], [] => True
  | first :: nodes, second :: others => Copied first second ∧ AllCopied nodes others
  | _, _ => False

end

/-- Matches of a text and of the text with blanks behind it. Only the last one of rules that are
not tight may take the blanks. -/
inductive Trails (tight : R → Bool) : List (Node R) → List (Node R) → Prop where
  | copied {nodes others : List (Node R)} (h : AllCopied nodes others) : Trails tight nodes others
  | shown {before ahead parts others : List (Node R)} {rule : R} {start stop first last : Cursor}
      (hBefore : AllCopied before ahead) (hRule : tight rule = false)
      (h : Trails tight parts others) :
      Trails tight (before ++ [.node rule start stop parts])
        (ahead ++ [.node rule first last others])

variable {node other : Node R} {nodes others first second : List (Node R)}

namespace Copied

theorem rule_eq (h : Copied node other) : node.rule = other.rule := by
  cases node
  cases other
  exact h.1

theorem start (h : Copied node other) : node.start.IsLevel other.start := by
  cases node
  cases other
  exact h.2.1

theorem stop (h : Copied node other) : node.stop.IsLevel other.stop := by
  cases node
  cases other
  exact h.2.2.1

/-- Matches that are copied have the same text. -/
theorem text_eq (h : Copied node other) : node.text = other.text := by
  cases node
  cases other
  exact congrArg String.ofList h.2.2.2.1

theorem parts (h : Copied node other) : AllCopied node.parts other.parts := by
  cases node
  cases other
  exact h.2.2.2.2

end Copied

namespace AllCopied

theorem eq_nil (h : AllCopied [] others) : others = [] := by
  cases others with
  | nil => rfl
  | cons => exact h.elim

theorem exists_cons (h : AllCopied (node :: nodes) others) :
    ∃ other rest, others = other :: rest ∧ Copied node other ∧ AllCopied nodes rest := by
  cases others with
  | nil => exact h.elim
  | cons other rest => exact ⟨other, rest, rfl, h.1, h.2⟩

end AllCopied

end Node

namespace Piece

/-- Pieces show the same matches in two texts. The induction is on the pieces and on those of each
match among them. -/
theorem allCopied_locateAll {start other : Cursor} {rest behind : List Char}
    (pieces : List (Piece R)) (h : start.IsLevel other)
    (hStart : start.rest = textOf pieces ++ rest) (hOther : other.rest = textOf pieces ++ behind) :
    Node.AllCopied (locateAll start pieces) (locateAll other pieces) := by
  match pieces with
  | [] => trivial
  | .char c :: pieces =>
    exact allCopied_locateAll pieces (h.past [c])
      (Cursor.rest_past (show start.rest = [c] ++ _ from hStart))
      (Cursor.rest_past (show other.rest = [c] ++ _ from hOther))
  | .shown rule parts :: pieces =>
    rw [textOf, text, List.append_assoc] at hStart hOther
    have hText : start.textTo (start.past (textOf parts)) =
        other.textTo (other.past (textOf parts)) := by
      rw [Cursor.textTo_past hStart, Cursor.textTo_past hOther]
    exact ⟨⟨rfl, h, h.past _, hText, allCopied_locateAll parts h hStart hOther⟩,
      allCopied_locateAll pieces (h.past _) (Cursor.rest_past hStart) (Cursor.rest_past hOther)⟩

/-- With blanks at their end, pieces show the same matches but for those that take the blanks. -/
theorem Trails.locateAll {tight : R → Bool} {pieces others : List (Piece R)}
    {start other : Cursor} {rest behind : List Char} (hPieces : Trails tight pieces others)
    (h : start.IsLevel other) (hStart : start.rest = textOf pieces ++ rest)
    (hOther : other.rest = textOf others ++ behind) :
    Node.Trails tight (locateAll start pieces) (locateAll other others) := by
  induction hPieces generalizing start other rest behind with
  | chars pieces blanks =>
    rw [textOf_append, List.append_assoc] at hOther
    rw [locateAll_append, locateAll_chars, List.append_nil]
    exact .copied (allCopied_locateAll pieces h hStart hOther)
  | shown before hRule _ ih =>
    rw [textOf_append, textOf_shown, List.append_assoc] at hStart hOther
    rw [locateAll_append, locateAll_append, locateAll_shown, locateAll_shown]
    exact .shown (allCopied_locateAll before h hStart hOther) hRule
      (ih (h.past _) (Cursor.rest_past hStart) (Cursor.rest_past hOther))

end Piece

end RowFilter.Grammar
