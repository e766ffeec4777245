/-!
Command line arguments as options and positional arguments.

An option begins with two dashes. Its value is the next argument or stands behind an equals sign.
Behind the argument `--` all arguments are positional.
-/

namespace RowFilter.CommandLine

/-- What an option takes. -/
inductive Arity where
  /-- Nothing. -/
  | flag
  /-- One value. -/
  | valued
deriving DecidableEq, Repr

/-- An option or a positional argument. -/
inductive Argument where
  | positional (text : String)
  | flag (name : String)
  | option (name value : String)
deriving DecidableEq, Repr

/-- Whether an argument can be the value of the option before it: it does not begin with a dash,
unless it is a dash alone. -/
def canBeValue (text : String) : Bool :=
  match text.toList with
  | '-' :: _ :: _ => false
  | _ => true

/-- The name of an option, and its value if one stands behind an equals sign. -/
def splitOption (text : List Char) : String × Option String :=
  let name := String.ofList (text.takeWhile (· ≠ '='))
  match text.dropWhile (· ≠ '=') with
  | _ :: value => (name, some (String.ofList value))
  | [] => (name, none)

/-- Reads arguments, given what each option takes. Unknown options, options without their value,
flags with a value and arguments with a single dash are refused. -/
def readArguments (arity : String → Option Arity) : List String → Option (List Argument)
  | [] => some []
  | text :: texts =>
    match text.toList with
    | ['-', '-'] => some (texts.map .positional)
    | '-' :: '-' :: body =>
      match splitOption body with
      | (name, attached) =>
        match arity name, attached, texts with
        | some .flag, none, texts => (readArguments arity texts).map (.flag name :: ·)
        | some .valued, some value, texts =>
          (readArguments arity texts).map (.option name value :: ·)
        | some .valued, none, value :: others =>
          if canBeValue value then (readArguments arity others).map (.option name value :: ·)
          else none
        | _, _, _ => none
    | '-' :: _ :: _ => none
    | _ => (readArguments arity texts).map (.positional text :: ·)

def positionals (arguments : List Argument) : List String :=
  arguments.filterMap fun
    | .positional text => some text
    | _ => none

def valuesOf (name : String) (arguments : List Argument) : List String :=
  arguments.filterMap fun
    | .option other value => if other = name then some value else none
    | _ => none

def countFlag (name : String) (arguments : List Argument) : Nat :=
  arguments.countP (· = .flag name)

/-- The only item of a list with at most one item. -/
def atMostOne? {α : Type} : List α → Option (Option α)
  | [] => some none
  | [item] => some (some item)
  | _ => none

/-- Whether a flag is given, if it is given at most once. -/
def flag? (name : String) (arguments : List Argument) : Option Bool :=
  match countFlag name arguments with
  | 0 => some false
  | 1 => some true
  | _ => none

end RowFilter.CommandLine
