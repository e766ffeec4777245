/-!
Places in a text: byte offsets, lines and columns, and the line around a place.

Offsets count the bytes of the UTF-8 form. Lines and columns count from one, columns in characters.
Two scans give the line and column behind a text: `Position.after` ends a line at each line feed,
`Position.afterLineEnds` at each line feed or carriage return with line feed. Every text leaves
them at the same place.
-/

namespace RowFilter.Text

/-- The number of bytes of the UTF-8 form of a text. -/
def byteLength (text : List Char) : Nat :=
  text.foldl (fun n c => n + c.utf8Size) 0

/-- Moves characters from `text` behind the reversed text `seen`, as long as they fit into the
given number of bytes. -/
def splitBytesFrom (seen : List Char) : Nat → List Char → List Char × List Char
  | _, [] => (seen.reverse, [])
  | bytes, c :: text =>
    if c.utf8Size ≤ bytes then splitBytesFrom (c :: seen) (bytes - c.utf8Size) text
    else (seen.reverse, c :: text)

/-- Cuts a text at a byte offset. An offset inside a character cuts before that character, and
one beyond the end cuts at the end. -/
def splitBytes (offset : Nat) (text : List Char) : List Char × List Char :=
  splitBytesFrom [] offset text

/-- Whether a byte offset lies between two characters of the text or at one of its ends. -/
def isBoundary (offset : Nat) (text : List Char) : Bool :=
  byteLength (splitBytes offset text).1 = offset

/-- A line and a column, both counted from one. -/
structure Position where
  line : Nat
  column : Nat
deriving DecidableEq, Repr

namespace Position

def first : Position := ⟨1, 1⟩

/-- The place behind one more character: a line feed starts a line, any other character takes
one column. -/
def advance (p : Position) (c : Char) : Position :=
  if c = '\n' then ⟨p.line + 1, 1⟩ else ⟨p.line, p.column + 1⟩

/-- The place behind a text, where only a line feed ends a line. -/
def after (text : List Char) : Position :=
  text.foldl advance first

/-- Continues a scan that takes a carriage return with its line feed as one line end. A carriage
return that stands alone takes a column. -/
def scanLineEnds (p : Position) : List Char → Position
  | [] => p
  | '\r' :: '\n' :: text => scanLineEnds ⟨p.line + 1, 1⟩ text
  | '\n' :: text => scanLineEnds ⟨p.line + 1, 1⟩ text
  | _ :: text => scanLineEnds ⟨p.line, p.column + 1⟩ text

/-- The place behind a text, where a line feed and a carriage return with its line feed each end
a line. -/
def afterLineEnds (text : List Char) : Position :=
  scanLineEnds first text

end Position

/-- The rest of the current line behind `before`. -/
def lineStart (before : List Char) : List Char :=
  (before.reverse.takeWhile (· ≠ '\n')).reverse

/-- The beginning of a text up to and including its first line feed. -/
def lineRest (after : List Char) : List Char :=
  after.takeWhile (· ≠ '\n') ++ (after.dropWhile (· ≠ '\n')).take 1

/-- The line around the place between `before` and `after`, with its line feed if it has one. -/
def lineAround (before after : List Char) : List Char :=
  lineStart before ++ lineRest after

/-- Whether a character belongs to a line end. -/
def isLineEnd (c : Char) : Bool :=
  c = '\n' || c = '\r'

/-- The first line of a text without its line end: a line feed with the carriage return before
it, if there is one. -/
def firstLine (text : List Char) : List Char :=
  let line := text.takeWhile (· ≠ '\n')
  if line.length < text.length ∧ line.getLast? = some '\r' then line.dropLast else line

end RowFilter.Text
