import RowFilter.Grammar.Run
import RowFilter.Proofs.Text.Bytes

/-! Match trees that keep their text. A `Node` knows the places of a match
but not the text between its parts. A `Piece` knows all of its text but no
place, so equal texts read alike give equal pieces wherever they stand. The
nodes of a text are its pieces, located from the place where the text begins. -/

namespace RowFilter.Grammar

open Text

namespace Cursor

/-- The place behind a text that follows a cursor. -/
def past (cursor : Cursor) (text : List Char) : Cursor :=
  text.foldl (fun cursor c => cursor.step c cursor.rest.tail) cursor

@[simp] theorem past_nil (cursor : Cursor) : cursor.past [] = cursor := rfl

@[simp] theorem past_cons (cursor : Cursor) (c : Char) (text : List Char) :
    cursor.past (c :: text) = (cursor.step c cursor.rest.tail).past text := rfl

/-- Moving on by two texts is moving on by one and then by the other. -/
theorem past_append (cursor : Cursor) (first second : List Char) :
    cursor.past (first ++ second) = (cursor.past first).past second :=
  List.foldl_append

/-- Offsets count bytes. -/
theorem offset_past (cursor : Cursor) (text : List Char) :
    (cursor.past text).offset = cursor.offset + byteLength text := by
  induction text generalizing cursor with
  | nil => rfl
  | cons c text ih =>
    rw [past_cons, ih, step, byteLength_cons, Nat.add_assoc]

/-- The line and the column count characters. -/
theorem position_past (cursor : Cursor) (text : List Char) :
    (cursor.past text).position = text.foldl Position.advance cursor.position := by
  induction text generalizing cursor with
  | nil => rfl
  | cons c text ih => rw [past_cons, ih, step, List.foldl_cons]

/-- What is passed is no longer left. -/
theorem rest_past {cursor : Cursor} {text rest : List Char} (h : cursor.rest = text ++ rest) :
    (cursor.past text).rest = rest := by
  induction text generalizing cursor with
  | nil => exact h
  | cons c text ih =>
    rw [past_cons]
    exact ih (by simp [step, h])

/-- The text between a cursor and the place behind a text that follows it. -/
theorem textTo_past {cursor : Cursor} {text rest : List Char} (h : cursor.rest = text ++ rest) :
    cursor.textTo (cursor.past text) = text := by
  rw [textTo, offset_past, Nat.add_sub_cancel_left, h, splitBytes_append]

/-- A cursor that stands in a text behind some of its characters. -/
def StandsIn (text : List Char) (cursor : Cursor) : Prop :=
  ∃ before, text = before ++ cursor.rest ∧ cursor = (ofText text).past before

theorem StandsIn.ofText (text : List Char) : (ofText text).StandsIn text :=
  ⟨[], rfl, rfl⟩

theorem StandsIn.past {text passed rest : List Char} {cursor : Cursor}
    (h : cursor.StandsIn text) (hRest : cursor.rest = passed ++ rest) :
    (cursor.past passed).StandsIn text := by
  obtain ⟨before, hText, hCursor⟩ := h
  refine ⟨before ++ passed, ?_, ?_⟩
  · rw [rest_past hRest, List.append_assoc, ← hRest, hText]
  · rw [past_append, ← hCursor]

/-- A cursor has counted the bytes, the lines and the columns of the text in front of it. -/
theorem StandsIn.exists_before {text : List Char} {cursor : Cursor} (h : cursor.StandsIn text) :
    ∃ before, text = before ++ cursor.rest ∧ cursor.offset = byteLength before ∧
      cursor.position = .after before := by
  obtain ⟨before, hText, hCursor⟩ := h
  refine ⟨before, hText, ?_, ?_⟩
  · rw [hCursor, offset_past]
    exact Nat.zero_add _
  · rw [hCursor, position_past]
    rfl

/-- A cursor stands at offset zero where nothing of the text lies behind it. -/
theorem StandsIn.offset_eq_zero_iff {text : List Char} {cursor : Cursor}
    (h : cursor.StandsIn text) : cursor.offset = 0 ↔ cursor.rest.length = text.length := by
  obtain ⟨before, hText, hOffset, -⟩ := h.exists_before
  have hLength := congrArg List.length hText
  rw [List.length_append] at hLength
  rw [hOffset, byteLength_eq_zero, ← List.length_eq_zero_iff]
  omega

end Cursor

/-- A piece of a text that a grammar has read. -/
inductive Piece (R : Type) where
  /-- A character that belongs to no shown match. -/
  | char (c : Char)
  /-- The pieces of a match of a rule. -/
  | shown (rule : R) (pieces : List (Piece R))

namespace Piece

variable {R : Type}

mutual

def text : Piece R → List Char
  | char c => [c]
  | shown _ pieces => textOf pieces

def textOf : List (Piece R) → List Char
  | [] => []
  | piece :: pieces => text piece ++ textOf pieces

end

def chars (text : List Char) : List (Piece R) := text.map char

mutual

/-- The matches that a piece shows if it starts at a cursor. -/
def locate (cursor : Cursor) : Piece R → List (Node R)
  | char _ => []
  | shown rule pieces =>
    [.node rule cursor (cursor.past (textOf pieces)) (locateAll cursor pieces)]

def locateAll (cursor : Cursor) : List (Piece R) → List (Node R)
  | [] => []
  | piece :: pieces => locate cursor piece ++ locateAll (cursor.past (text piece)) pieces

end

@[simp] theorem textOf_nil : textOf ([] : List (Piece R)) = [] := rfl

@[simp] theorem textOf_append (first second : List (Piece R)) :
    textOf (first ++ second) = textOf first ++ textOf second := by
  induction first with
  | nil => rfl
  | cons piece first ih => simp only [List.cons_append, textOf, ih, List.append_assoc]

@[simp] theorem textOf_chars (text : List Char) : textOf (chars text : List (Piece R)) = text := by
  induction text with
  | nil => rfl
  | cons c text ih =>
    rw [chars, List.map_cons, textOf, Piece.text]
    exact congrArg (c :: ·) ih

@[simp] theorem textOf_shown (rule : R) (pieces : List (Piece R)) :
    textOf [shown rule pieces] = textOf pieces := by
  rw [textOf, textOf, List.append_nil, text]

theorem chars_append (first second : List Char) :
    (chars (first ++ second) : List (Piece R)) = chars first ++ chars second :=
  List.map_append

@[simp] theorem locateAll_nil (cursor : Cursor) : locateAll cursor ([] : List (Piece R)) = [] :=
  rfl

@[simp] theorem locateAll_append (cursor : Cursor) (first second : List (Piece R)) :
    locateAll cursor (first ++ second) =
      locateAll cursor first ++ locateAll (cursor.past (textOf first)) second := by
  induction first generalizing cursor with
  | nil => rfl
  | cons piece first ih =>
    simp only [List.cons_append, locateAll, ih, textOf, Cursor.past_append, List.append_assoc]

@[simp] theorem locateAll_chars (cursor : Cursor) (text : List Char) :
    locateAll cursor (chars text : List (Piece R)) = [] := by
  induction text generalizing cursor with
  | nil => rfl
  | cons c text ih =>
    rw [chars, List.map_cons, locateAll, locate, List.nil_append]
    exact ih _

@[simp] theorem locateAll_shown (cursor : Cursor) (rule : R) (pieces : List (Piece R)) :
    locateAll cursor [shown rule pieces] =
      [.node rule cursor (cursor.past (textOf pieces)) (locateAll cursor pieces)] := by
  rw [locateAll, locate, locateAll, List.append_nil]

end Piece

end RowFilter.Grammar
