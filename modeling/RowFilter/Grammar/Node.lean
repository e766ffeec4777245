import RowFilter.Grammar.Cursor

/-!
Matches of rules as trees.
-/

namespace RowFilter.Grammar

/-- A match of a rule: where it starts and stops, and the matches it shows as its parts. -/
inductive Node (R : Type) where
  | node (rule : R) (start stop : Cursor) (parts : List (Node R))

namespace Node

variable {R : Type}

def rule : Node R → R
  | node rule _ _ _ => rule

def start : Node R → Cursor
  | node _ start _ _ => start

def stop : Node R → Cursor
  | node _ _ stop _ => stop

def parts : Node R → List (Node R)
  | node _ _ _ parts => parts

def text (node : Node R) : String :=
  String.ofList (node.start.textTo node.stop)

mutual

/-- Appends a match to `out` as `name(start,stop)`, with its parts in brackets if it has any. -/
def write (name : R → String) (out : String) : Node R → String
  | node rule start stop parts =>
    let out := out ++ name rule ++ "(" ++ toString start.offset ++ "," ++
      toString stop.offset ++ ")"
    match parts with
    | [] => out
    | first :: others => writeAll name (write name (out ++ "[") first) others ++ "]"

def writeAll (name : R → String) (out : String) : List (Node R) → String
  | [] => out
  | first :: others => writeAll name (write name (out ++ " ") first) others

end

/-- Matches in writing, separated by blanks. -/
def showAll (name : R → String) : List (Node R) → String
  | [] => ""
  | first :: others => writeAll name (write name "" first) others

end Node

end RowFilter.Grammar
