import RowFilter.CommandLine.Command

/-!
The command line program. It shows row filters in the forms that
storage backends take.
-/

open RowFilter.CommandLine

/-- The bytes of a file, or why they cannot be read. -/
def readFileBytes (path : String) : IO (Except FileError ByteArray) := do
  try
    return .ok (← IO.FS.readBinFile path)
  catch
    | .noFileOrDirectory .. => return .error .notFound
    | .inappropriateType .. => return .error .isDirectory
    | error => return .error (.other (toString error))

/-- How the program is used. -/
def usage : String :=
  "usage: (prefix | dnf [--pretty] | psql | ast) (FILTER | --file PATH)\n" ++
  "       query --table TABLE [--columns COLUMNS] [--filter FILTER] [--distinct]\n" ++
  "             [--limit ROWS] [--sample ROWS]"

/-- Runs the command of the arguments and shows its result. -/
def main (arguments : List String) : IO UInt32 := do
  match Command.ofArguments? arguments with
  | none =>
    IO.eprintln usage
    return 2
  | some command =>
    match ← command.run readFileBytes with
    | .ok text =>
      IO.println text
      return 0
    | .error failure =>
      IO.eprintln failure.report
      return 1
