import RowFilter.Json.Basic

/-!
JSON text, compact or over several lines.

The compact form has no blanks between its parts. The other form puts each item and field on a line
of its own, indented by two blanks for each level. The writers append to the text so far.
-/

namespace RowFilter.Json

/-- What stands between the parts of JSON text. -/
structure Spacing where
  /-- What stands before an item or field of a level, and before the end of its surroundings. -/
  newLine : Nat → String
  /-- What stands between a key and its value. -/
  colon : String

/-- No blanks between the parts. -/
def Spacing.compact : Spacing := ⟨fun _ => "", ":"⟩

/-- Lines that are indented by their level. -/
def Spacing.indented : Spacing where
  newLine level := String.ofList ('\n' :: List.replicate (2 * level) ' ')
  colon := ": "

mutual

/-- Appends a value that stands at a level. -/
def write (spacing : Spacing) (level : Nat) (out : String) : Json → String
  | array [] => out ++ "[]"
  | array (item :: items) =>
    let out := write spacing (level + 1) (out ++ "[" ++ spacing.newLine (level + 1)) item
    writeItems spacing level out items
  | object [] => out ++ "\x7b\x7d"
  | object ((key, value) :: fields) =>
    let out := out ++ "\x7b" ++ spacing.newLine (level + 1) ++ quote key ++ spacing.colon
    writeFields spacing level (write spacing (level + 1) out value) fields
  | value => out ++ showScalar value

/-- Appends the further items of an array that stands at a level, and its end. -/
def writeItems (spacing : Spacing) (level : Nat) (out : String) : List Json → String
  | [] => out ++ spacing.newLine level ++ "]"
  | item :: items =>
    let out := write spacing (level + 1) (out ++ "," ++ spacing.newLine (level + 1)) item
    writeItems spacing level out items

/-- Appends the further fields of an object that stands at a level, and its end. -/
def writeFields (spacing : Spacing) (level : Nat) (out : String) :
    List (String × Json) → String
  | [] => out ++ spacing.newLine level ++ "\x7d"
  | (key, value) :: fields =>
    let out := out ++ "," ++ spacing.newLine (level + 1) ++ quote key ++ spacing.colon
    writeFields spacing level (write spacing (level + 1) out value) fields

end

def compact (value : Json) : String := write .compact 0 "" value

/-- A JSON value with each item and field on a line of its own. -/
def indented (value : Json) : String := write .indented 0 "" value

end RowFilter.Json
