import RowFilter.Text.Position

/-!
Cursors: places in a text while it is being read.
-/

namespace RowFilter.Grammar

open Text

/-- A place in a text: the text that is left, the byte offset, and the line and column. Only a
line feed ends a line. -/
structure Cursor where
  rest : List Char
  offset : Nat
  position : Position
deriving DecidableEq

namespace Cursor

def ofText (text : List Char) : Cursor := ⟨text, 0, Position.first⟩

/-- The place behind the next character, given that character and what follows it. -/
def step (cursor : Cursor) (c : Char) (rest : List Char) : Cursor :=
  ⟨rest, cursor.offset + c.utf8Size, cursor.position.advance c⟩

/-- The place behind the next character, if the character is accepted. -/
def accept? (p : Char → Bool) (cursor : Cursor) : Option Cursor :=
  match cursor.rest with
  | c :: rest => if p c then some (cursor.step c rest) else none
  | [] => none

/-- The place behind a run of characters, if each next one is accepted by the test at its place in
the list. -/
def acceptAll? : List (Char → Bool) → Cursor → Option Cursor
  | [], cursor => some cursor
  | p :: ps, cursor => (cursor.accept? p).bind (acceptAll? ps)

/-- Moves over the characters that satisfy `p`, as far as they follow each other. -/
def skipFrom (p : Char → Bool) (offset : Nat) (position : Position) : List Char → Cursor
  | [] => ⟨[], offset, position⟩
  | c :: rest =>
    if p c then skipFrom p (offset + c.utf8Size) (position.advance c) rest
    else ⟨c :: rest, offset, position⟩

/-- The first place from a cursor on where no character that satisfies `p` follows. -/
def skip (p : Char → Bool) (cursor : Cursor) : Cursor :=
  skipFrom p cursor.offset cursor.position cursor.rest

/-- The text between two cursors of one text. -/
def textTo (start stop : Cursor) : List Char :=
  (splitBytes (stop.offset - start.offset) start.rest).1

end Cursor

end RowFilter.Grammar
