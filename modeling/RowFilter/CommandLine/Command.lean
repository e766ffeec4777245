import RowFilter.CommandLine.Arguments
import RowFilter.Postgres.Query
import RowFilter.Text.Blank
import RowFilter.Compile

/-!
The commands of the command line: showing a filter in one of its forms, and composing a query.
-/

namespace RowFilter.CommandLine

/-- Where the text of a filter comes from. -/
inductive Source where
  | inline (filter : String)
  | file (path : String)
deriving DecidableEq, Repr

/-- A command. -/
inductive Command where
  /-- Shows a filter in Polish notation. -/
  | polish (source : Source)
  /-- Shows the disjunctive normal form of a filter as JSON, over several lines if `pretty`. -/
  | dnf (source : Source) (pretty : Bool)
  /-- Shows a filter as a PostgreSQL condition. -/
  | postgres (source : Source)
  /-- Shows the syntax tree of a filter as JSON over several lines. -/
  | tree (source : Source)
  /-- Shows the statement that reads a table. -/
  | query (query : ReadQuery)
deriving DecidableEq, Repr

/-- The number of a text of decimal digits, perhaps behind a plus, if 64 bits hold it. -/
def readUnsigned? (text : String) : Option UInt64 :=
  let digits :=
    match text.toList with
    | '+' :: digits => digits
    | digits => digits
  if digits ≠ [] ∧ digits.all Char.isDigit ∧ digitsValue digits < UInt64.size then
    some (UInt64.ofNat (digitsValue digits))
  else none

/-- The numbers of some texts, if each text spells one. -/
def readUnsigneds? : List String → Option (List UInt64)
  | [] => some []
  | text :: texts =>
    match readUnsigned? text with
    | some number => (readUnsigneds? texts).map (number :: ·)
    | none => none

namespace Command

/-- What the options of filter commands take. -/
def filterArity (withPretty : Bool) (name : String) : Option Arity :=
  if name = "file" then some .valued
  else if name = "pretty" ∧ withPretty then some .flag
  else none

/-- What the options of the query command take. -/
def queryArity (name : String) : Option Arity :=
  match name with
  | "table" | "columns" | "filter" | "limit" | "sample" => some .valued
  | "distinct" => some .flag
  | _ => none

/-- The source of a filter: one positional argument or one file with a path that is not empty. -/
def source? (arguments : List Argument) : Option Source :=
  match positionals arguments, valuesOf "file" arguments with
  | [filter], [] => some (.inline filter)
  | [], [path] => if path.isEmpty then none else some (.file path)
  | _, _ => none

/-- The query of the arguments of the query command. -/
def query? (arguments : List Argument) : Option ReadQuery :=
  match positionals arguments, valuesOf "table" arguments,
    atMostOne? (valuesOf "filter" arguments), flag? "distinct" arguments,
    (readUnsigneds? (valuesOf "limit" arguments)).bind atMostOne?,
    (readUnsigneds? (valuesOf "sample" arguments)).bind atMostOne? with
  | [], [table], some filter, some distinct, some limit, some sample =>
    let columns := (valuesOf "columns" arguments).flatMap (ReadQuery.splitAt ',')
    some { table, columns, filter, distinct, limit, sample }
  | _, _, _, _, _, _ => none

/-- The source of a filter among the arguments of a command that only takes one. -/
def sourceOf? (arguments : List String) : Option Source :=
  (readArguments (filterArity false) arguments).bind source?

/-- The command with the given name and arguments, unless the arguments do not fit. -/
def ofArguments? : List String → Option Command
  | "prefix" :: arguments => (sourceOf? arguments).map .polish
  | "psql" :: arguments => (sourceOf? arguments).map .postgres
  | "ast" :: arguments => (sourceOf? arguments).map .tree
  | "dnf" :: arguments =>
    (readArguments (filterArity true) arguments).bind fun arguments =>
      (source? arguments).bind fun source =>
        (flag? "pretty" arguments).map fun pretty => .dnf source pretty
  | "query" :: arguments =>
    (readArguments queryArity arguments).bind fun arguments => (query? arguments).map .query
  | _ => none

end Command

/-- Why a file cannot be read. -/
inductive FileError where
  | notFound
  | isDirectory
  | notUtf8
  | other (message : String)
deriving DecidableEq, Repr

def FileError.message : FileError → String
  | notFound => "No such file or directory (os error 2)"
  | isDirectory => "Is a directory (os error 21)"
  | notUtf8 => "stream did not contain valid UTF-8"
  | other message => message

/-- Why a command failed. -/
inductive Failure where
  /-- The file with the filter cannot be read. -/
  | fileUnreadable (path : String) (error : FileError)
  /-- The filter has an error. -/
  | filterError (error : FilterError)
deriving DecidableEq, Repr

namespace Failure

def message : Failure → String
  | fileUnreadable path error =>
    "Failed to read the filter file " ++ path ++ ": " ++ error.message
  | filterError error => error.message

/-- The failure in words, with a caret under the place it points at if it points at one. -/
def report : Failure → String
  | filterError error => error.report
  | failure => failure.message

end Failure

/-- The filter in the bytes of a file, without the blanks at its end. -/
def decodeFile (bytes : ByteArray) : Except FileError String :=
  match String.fromUTF8? bytes with
  | none => .error .notUtf8
  | some text => .ok (String.ofList (Text.trimEnd Text.isBlank text.toList))

/-- The text of a filter from its source, given how files are read. -/
def Source.read {m : Type → Type} [Monad m] (readFile : String → m (Except FileError ByteArray)) :
    Source → m (Except Failure String)
  | inline filter => pure (.ok filter)
  | file path => do
    let content ← readFile path
    pure ((content.bind decodeFile).mapError (.fileUnreadable path))

namespace Command

/-- What a command shows for the text of its filter. -/
def present (form : String → Except FilterError String) (source : Except Failure String) :
    Except Failure String :=
  source.bind fun text => (form text).mapError .filterError

def dnfJson (pretty : Bool) (source : String) : Except FilterError String :=
  (Compile.dnf source).map fun dnf =>
    if pretty then dnf.toJson.indented else dnf.toJson.compact

def treeJson (source : String) : Except SyntaxError String :=
  (Filter.parse source).map fun filter => filter.toJson.indented

/-- What a command shows, given how files are read. -/
def run {m : Type → Type} [Monad m] (readFile : String → m (Except FileError ByteArray)) :
    Command → m (Except Failure String)
  | polish source => do
    return present (fun text => (Compile.polish text).mapError .unreadable) (← source.read readFile)
  | dnf source pretty => do
    return present (dnfJson pretty) (← source.read readFile)
  | postgres source => do
    return present (fun text => (Compile.postgres text).mapError .unreadable)
      (← source.read readFile)
  | tree source => do
    return present (fun text => (treeJson text).mapError .unreadable) (← source.read readFile)
  | query reading => return reading.toSql.mapError (.filterError ∘ .unreadable)

end Command

end RowFilter.CommandLine
