import RowFilter.Proofs.Syntax.ErrorPlace
import RowFilter.Proofs.Text.Lines

/-! Lines and columns of matches and errors. A match counts them while the text is
read, character by character, where only a line feed ends a line. An error counts
them once it is known where it stands, and takes a carriage return with its line feed
as one line end. Both come to the same place, also between these two characters,
since a carriage return takes a column on a line that ends right behind it. -/

namespace RowFilter

open Grammar Text

/-- The places where a cursor can stand are the boundaries between characters. -/
theorem Grammar.Cursor.exists_standsIn_iff {text : List Char} {offset : Nat} :
    (∃ cursor : Cursor, cursor.StandsIn text ∧ cursor.offset = offset) ↔
      isBoundary offset text = true := by
  constructor
  · rintro ⟨cursor, hCursor, rfl⟩
    obtain ⟨before, hText, hOffset, -⟩ := hCursor.exists_before
    rw [hOffset, hText]
    exact isBoundary_byteLength before cursor.rest
  · intro hBoundary
    have hText := splitBytes_fst_append_snd offset text
    refine ⟨_, Cursor.StandsIn.past (.ofText text) hText.symm, ?_⟩
    rw [Cursor.offset_past, of_decide_eq_true hBoundary]
    exact Nat.zero_add _

/-- The errors of a text that point at a byte offset of it. -/
inductive SyntaxError.IsAt (text : List Char) : Nat → SyntaxError → Prop where
  /-- The grammar stopped there. -/
  | expected (offset : Nat) (rules : List Rule) : IsAt text offset (.ofExpected text ⟨offset, rules⟩)
  /-- A piece of the text that begins there is at fault. -/
  | piece (fault : SyntaxFault) (start stop : Nat) :
      IsAt text start (.ofPiece fault text start stop)
  /-- There is nothing to read. -/
  | empty : IsAt text 0 (.ofEmpty text)

variable {text : List Char} {offset : Nat} {error : SyntaxError}

/-- An error has the line and the column of its offset. -/
theorem SyntaxError.IsAt.position_eq (h : error.IsAt text offset) :
    error.position = .afterLineEnds (splitBytes offset text).1 := by
  cases h with
  | expected | piece => rfl
  | empty =>
    have hSplit : splitBytes 0 text = ([], text) := splitBytes_append [] text
    rw [hSplit]
    rfl

/-- The error of a text that spells no filter points at its offset. -/
theorem SyntaxError.isAt_of_parse {source : String} (h : Filter.parse source = .error error) :
    error.IsAt source.toList error.offset := by
  obtain ⟨before, after, hText, hPlace⟩ := Filter.exists_pointsBetween h
  rw [hText]
  cases hPlace with
  | unexpected after rules => exact .expected _ rules
  | piece fault c after stop => exact .piece fault _ stop

/-- The matches of a text start within it. -/
theorem start_standsIn_of_parse {rule : Rule} {nodes : List (Node Rule)}
    (h : filterGrammar.parse rule text = .ok nodes) :
    ∀ node ∈ Node.preorderAll nodes, node.start.StandsIn text := by
  obtain ⟨stop, hMatches⟩ := exists_matches_of_parse filterGrammar_ranked h
  exact fun _ => hMatches.start_standsIn (.ofText text)

/-- Matches and errors have the same coordinates. A match can start at each boundary between two
characters of a text, and all matches of a rule start at such places. The line and the column of a
match count the line feeds in front of it and the characters behind the last one of these, and are
the line and the column of every error that points at the offset where it starts. -/
theorem SyntaxError.position_eq_ofNode (source : String) :
    (∀ offset, isBoundary offset source.toList = true ↔
        ∃ cursor : Cursor, cursor.StandsIn source.toList ∧ cursor.offset = offset) ∧
      (∀ rule nodes, filterGrammar.parse rule source.toList = .ok nodes →
        ∀ node ∈ Node.preorderAll nodes, node.start.StandsIn source.toList) ∧
      (∀ error, Filter.parse source = .error error → error.IsAt source.toList error.offset) ∧
      ∀ node : Node Rule, node.start.StandsIn source.toList →
        ∃ before, source.toList = before ++ node.start.rest ∧
          (Span.ofNode node).start = byteLength before ∧
          (Span.ofNode node).line = before.count '\n' + 1 ∧
          (Span.ofNode node).column = (lineStart before).length + 1 ∧
          ∀ error : SyntaxError, error.IsAt source.toList (Span.ofNode node).start →
            error.position = ⟨(Span.ofNode node).line, (Span.ofNode node).column⟩ := by
  refine ⟨fun _ => Cursor.exists_standsIn_iff.symm, fun _ _ => start_standsIn_of_parse,
    fun _ => isAt_of_parse, fun node hNode => ?_⟩
  obtain ⟨before, hText, hOffset, hPosition⟩ := hNode.exists_before
  have hLine : (Span.ofNode node).line = before.count '\n' + 1 := by
    rw [Span.ofNode, hPosition, Position.line_after]
  have hColumn : (Span.ofNode node).column = (lineStart before).length + 1 := by
    rw [Span.ofNode, hPosition, Position.column_after]
  refine ⟨before, hText, hOffset, hLine, hColumn, fun error hError => ?_⟩
  calc error.position
      = .afterLineEnds (splitBytes node.start.offset source.toList).1 := hError.position_eq
    _ = .after before := by
      rw [hOffset, hText, splitBytes_append, Position.afterLineEnds_eq]
    _ = node.start.position := hPosition.symm

/-- Between a carriage return and its line feed. -/
example : Position.after ['a', '\r'] = ⟨1, 3⟩ ∧ Position.afterLineEnds ['a', '\r'] = ⟨1, 3⟩ := by
  decide

end RowFilter
