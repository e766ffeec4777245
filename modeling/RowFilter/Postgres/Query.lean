import RowFilter.Postgres.Condition
import RowFilter.Syntax.Parse

/-!
The `SELECT` statement that reads the rows of a table.
-/

namespace RowFilter

/-- What is to be read from a table. -/
structure ReadQuery where
  /-- The table, with its schema and a dot before it if it has one. -/
  table : String
  /-- The columns to select: all columns if there are none. -/
  columns : List String
  /-- The text of the filter that rows pass. -/
  filter : Option String
  distinct : Bool
  /-- The largest number of rows. -/
  limit : Option UInt64
  /-- The number of rows drawn at random. -/
  sample : Option UInt64
deriving DecidableEq, Repr

namespace ReadQuery

/-- All rows and columns of a table. -/
def ofTable (table : String) : ReadQuery := ⟨table, [], none, false, none, none⟩

/-- Selects these columns instead of the columns so far. -/
def withColumns (query : ReadQuery) (columns : List String) : ReadQuery :=
  { query with columns }

/-- Reads the rows that pass this filter instead of the filter so far. -/
def withFilter (query : ReadQuery) (filter : String) : ReadQuery :=
  { query with filter := some filter }

/-- Selects distinct rows only, or all rows. -/
def withDistinct (query : ReadQuery) (distinct : Bool) : ReadQuery :=
  { query with distinct }

/-- Reads at most this number of rows. -/
def withLimit (query : ReadQuery) (limit : UInt64) : ReadQuery :=
  { query with limit := some limit }

/-- Draws this number of rows at random. -/
def withSample (query : ReadQuery) (sample : UInt64) : ReadQuery :=
  { query with sample := some sample }

/-- The pieces of a text between the occurrences of a character. There is always one piece. The
characters of the first piece so far are in `seen`, the last one first. -/
def splitFrom (separator : Char) (seen : List Char) : List Char → List String
  | [] => [String.ofList seen.reverse]
  | c :: text =>
    if c = separator then String.ofList seen.reverse :: splitFrom separator [] text
    else splitFrom separator (c :: seen) text

/-- The pieces of a text between the occurrences of a character. -/
def splitAt (separator : Char) (text : String) : List String :=
  splitFrom separator [] text.toList

/-- A table, with each part between dots as an identifier. -/
def quoteTable (table : String) : String :=
  ".".intercalate ((splitAt '.' table).map Postgres.identifier)

def selection (columns : List String) : String :=
  if columns.isEmpty then "*" else ", ".intercalate (columns.map Postgres.identifier)

/-- The end of a statement that bounds its rows. A limit narrows a sample. -/
def bounds (limit sample : Option UInt64) : String :=
  match limit, sample with
  | some limit, some sample => " ORDER BY RANDOM() LIMIT " ++ toString (min limit sample).toNat
  | none, some sample => " ORDER BY RANDOM() LIMIT " ++ toString sample.toNat
  | some limit, none => " LIMIT " ++ toString limit.toNat
  | none, none => ""

/-- The `WHERE` clause of a filter, if there is one. -/
def whereClause : Option String → Except SyntaxError String
  | none => .ok ""
  | some filter => (Filter.parse filter).map fun f => " WHERE " ++ f.toPostgres

/-- The statement that reads the rows. It fails if the filter has an error. -/
def toSql (query : ReadQuery) : Except SyntaxError String :=
  (whereClause query.filter).map fun clause =>
    "SELECT " ++ (if query.distinct then "DISTINCT " else "") ++ selection query.columns ++
      " FROM " ++ quoteTable query.table ++ clause ++ bounds query.limit query.sample

end ReadQuery

end RowFilter
