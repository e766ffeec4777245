import RowFilter.CommandLine.Command
import RowFilter.Proofs.CommandLine.Arguments
import RowFilter.Proofs.Postgres.Settings
import RowFilter.Proofs.Postgres.Statement

/-! The query command as a sequence of settings. Whatever the order of its
options and the way they are written, the command composes the statement of the
query with the settings that the options stand for. -/

namespace RowFilter

namespace ReadQuery

/-- What a setting replaces, if it is the filter. -/
def Setting.filter? : Setting → Option String
  | .filter text => some text
  | _ => none

def Setting.distinct? : Setting → Option Bool
  | .distinct value => some value
  | _ => none

def Setting.limit? : Setting → Option UInt64
  | .limit value => some value
  | _ => none

def Setting.sample? : Setting → Option UInt64
  | .sample value => some value
  | _ => none

/-- A part of a query that a setting either replaces or leaves alone is the one set last. -/
theorem setAll_part {α : Type} (part : ReadQuery → Option α) (pick : Setting → Option α)
    (hSet : ∀ query setting, part (set query setting) = (pick setting).or (part query))
    (query : ReadQuery) (settings : List Setting) :
    part (query.setAll settings) = (settings.filterMap pick).getLast?.or (part query) := by
  induction settings using List.reverseRecOn with
  | nil => rfl
  | append_singleton settings final ih =>
    rw [setAll_append_singleton, hSet, ih, List.filterMap_append]
    cases hPick : pick final <;> simp [hPick]

/-- No setting changes the table. -/
theorem table_setAll (query : ReadQuery) (settings : List Setting) :
    (query.setAll settings).table = query.table := by
  have hTable := setAll_part (some ·.table) (fun _ => none)
    (fun _ setting => by cases setting <;> rfl) query settings
  simpa using hTable

end ReadQuery

namespace CommandLine

/-- A text of decimal digits, perhaps behind a plus, that spells a number of 64 bits. -/
structure Count where
  text : String
  value : UInt64
  spells : ∃ plus digits, text.toList = plus ++ digits ∧ (plus = [] ∨ plus = ['+']) ∧
    digits ≠ [] ∧ (∀ c ∈ digits, c.isDigit = true) ∧ appendDigits 0 digits = value.toNat

/-- An option of the query command. -/
inductive QueryOption where
  | table (name : String)
  | columns (names : String)
  | filter (text : String)
  | distinct
  | limit (count : Count)
  | sample (count : Count)

namespace QueryOption

def name : QueryOption → String
  | table _ => "table"
  | columns _ => "columns"
  | filter _ => "filter"
  | distinct => "distinct"
  | limit _ => "limit"
  | sample _ => "sample"

def argument : QueryOption → Argument
  | table name => .option "table" name
  | columns names => .option "columns" names
  | filter text => .option "filter" text
  | distinct => .flag "distinct"
  | limit count => .option "limit" count.text
  | sample count => .option "sample" count.text

/-- What the option sets. The table and the columns of several options are not set one by one. -/
def setting? : QueryOption → Option ReadQuery.Setting
  | table _ | columns _ => none
  | filter text => some (.filter text)
  | distinct => some (.distinct true)
  | limit count => some (.limit count.value)
  | sample count => some (.sample count.value)

/-- The columns that the option adds: what stands between its commas, also if that is nothing. -/
def addedColumns : QueryOption → List String
  | columns names => (names.toList.splitOn ',').map String.ofList
  | _ => []

/-- The query of a table with the settings of some options. -/
def requested (table : String) (options : List QueryOption) : ReadQuery :=
  ((ReadQuery.ofTable table).setAll (options.filterMap setting?)).withColumns
    (options.flatMap addedColumns)

end QueryOption

/-- A count is read as its number. -/
theorem Count.readUnsigned? (count : Count) :
    CommandLine.readUnsigned? count.text = some count.value := by
  obtain ⟨plus, digits, hText, hPlus, hNonempty, hDigits, hValue⟩ := count.spells
  have hBound : digitsValue digits < UInt64.size := by
    rw [digitsValue_eq_appendDigits, hValue]
    exact count.value.toNat_lt_size
  have hRead : CommandLine.readUnsigned? count.text =
      if digits ≠ [] ∧ digits.all Char.isDigit ∧ digitsValue digits < UInt64.size then
        some (UInt64.ofNat (digitsValue digits))
      else none := by
    rw [CommandLine.readUnsigned?, hText]
    rcases hPlus with rfl | rfl
    · rw [List.nil_append]
      split
      · exact absurd (hDigits '+' List.mem_cons_self) (by decide)
      · rfl
    · rfl
  rw [hRead, if_pos ⟨hNonempty, List.all_eq_true.2 hDigits, hBound⟩, digitsValue_eq_appendDigits,
    hValue, UInt64.ofNat_toNat]

theorem readUnsigneds?_texts (counts : List Count) :
    readUnsigneds? (counts.map Count.text) = some (counts.map Count.value) := by
  induction counts with
  | nil => rfl
  | cons count counts ih => simp [readUnsigneds?, count.readUnsigned?, ih]

theorem atMostOne?_of_length_le {α : Type} {items : List α} (h : items.length ≤ 1) :
    atMostOne? items = some items.getLast? := by
  match items, h with
  | [], _ => rfl
  | [item], _ => rfl

namespace QueryOption

variable {options : List QueryOption}

/-- The query command takes each of its options. -/
theorem fits_argument (option : QueryOption) : option.argument.Fits Command.queryArity := by
  cases option <;> exact ⟨rfl, by decide, by decide⟩

theorem positionals_argument (options : List QueryOption) :
    positionals (options.map argument) = [] := by
  refine List.filterMap_eq_nil_iff.2 fun other hOther => ?_
  obtain ⟨option, -, rfl⟩ := List.mem_map.1 hOther
  cases option <;> rfl

/-- What an option takes stands behind its name. -/
theorem argument_eq (option : QueryOption) :
    option.argument = .flag option.name ∨ ∃ value, option.argument = .option option.name value := by
  cases option <;> simp [argument, name]

/-- An option has a value or is a flag as often as it is given. -/
theorem length_valuesOf_add_countFlag (name : String) (options : List QueryOption) :
    (valuesOf name (options.map argument)).length + countFlag name (options.map argument) =
      (options.map QueryOption.name).count name := by
  induction options with
  | nil => rfl
  | cons option options ih =>
    simp only [List.map_cons, valuesOf, countFlag, List.count_cons] at ih ⊢
    rcases option.argument_eq with hArgument | ⟨value, hArgument⟩ <;> rw [hArgument] <;>
      by_cases hName : option.name = name <;> simp [hName, ← ih] <;> omega

/-- The values of an option are found option by option. -/
theorem valuesOf_argument (name : String) (pick : QueryOption → Option String)
    (hPick : ∀ option : QueryOption, valuesOf name [option.argument] = (pick option).toList)
    (options : List QueryOption) :
    valuesOf name (options.map argument) = options.filterMap pick := by
  induction options with
  | nil => rfl
  | cons option options ih =>
    have hCons : valuesOf name (option.argument :: options.map argument) =
        valuesOf name [option.argument] ++ valuesOf name (options.map argument) :=
      List.filterMap_append (l := [option.argument])
    rw [List.map_cons, hCons, hPick, ih, List.filterMap_cons]
    cases pick option <;> rfl

def table? : QueryOption → Option String
  | table name => some name
  | _ => none

def limit? : QueryOption → Option Count
  | limit count => some count
  | _ => none

def sample? : QueryOption → Option Count
  | sample count => some count
  | _ => none

/-- Each flag for distinct rows sets them. -/
theorem filterMap_distinct? (options : List QueryOption) :
    (options.filterMap setting?).filterMap ReadQuery.Setting.distinct? =
      List.replicate (countFlag "distinct" (options.map argument)) true := by
  induction options with
  | nil => rfl
  | cons option options ih =>
    rw [countFlag] at ih ⊢
    cases option <;>
      simpa [setting?, argument, ReadQuery.Setting.distinct?, List.replicate_succ,
        List.filterMap_cons] using ih

/-- The settings of a count are the values of the options that give it. -/
theorem filterMap_count (part : ReadQuery.Setting → Option UInt64) (pick : QueryOption → Option Count)
    (hPick : ∀ option : QueryOption, option.setting?.bind part = (pick option).map Count.value)
    (options : List QueryOption) :
    (options.filterMap setting?).filterMap part = (options.filterMap pick).map Count.value := by
  rw [List.filterMap_filterMap, List.map_filterMap]
  exact List.filterMap_congr fun option _ => hPick option

/-- A count that is given at most once is read. -/
theorem readUnsigneds?_valuesOf (name : String) (pick : QueryOption → Option Count)
    (hPick : ∀ option : QueryOption,
      valuesOf name [option.argument] = ((pick option).map Count.text).toList)
    (hLength : (valuesOf name (options.map argument)).length ≤ 1) :
    (readUnsigneds? (valuesOf name (options.map argument))).bind atMostOne? =
      some ((options.filterMap pick).map Count.value).getLast? := by
  have hTexts : valuesOf name (options.map argument) =
      (options.filterMap pick).map Count.text := by
    rw [valuesOf_argument name _ hPick, List.map_filterMap]
  rw [hTexts, List.length_map] at hLength
  rw [hTexts, readUnsigneds?_texts, Option.bind_some, atMostOne?_of_length_le (by simpa)]

/-- The parts of the query that some options request. -/
theorem requested_eq (table : String) (options : List QueryOption) :
    requested table options =
      { table
        columns := options.flatMap addedColumns
        filter := ((options.filterMap setting?).filterMap ReadQuery.Setting.filter?).getLast?
        distinct := ((options.filterMap setting?).filterMap
          ReadQuery.Setting.distinct?).getLast?.getD false
        limit := ((options.filterMap limit?).map Count.value).getLast?
        sample := ((options.filterMap sample?).map Count.value).getLast? } := by
  let settings := options.filterMap setting?
  have hTable := ReadQuery.table_setAll (.ofTable table) settings
  have hFilter := ReadQuery.setAll_part (·.filter) ReadQuery.Setting.filter?
    (fun _ setting => by cases setting <;> rfl) (.ofTable table) settings
  have hDistinct := ReadQuery.setAll_part (some ·.distinct) ReadQuery.Setting.distinct?
    (fun _ setting => by cases setting <;> rfl) (.ofTable table) settings
  have hLimit := ReadQuery.setAll_part (·.limit) ReadQuery.Setting.limit?
    (fun _ setting => by cases setting <;> rfl) (.ofTable table) settings
  have hSample := ReadQuery.setAll_part (·.sample) ReadQuery.Setting.sample?
    (fun _ setting => by cases setting <;> rfl) (.ofTable table) settings
  rw [filterMap_count _ limit? (fun option => by cases option <;> rfl)] at hLimit
  rw [filterMap_count _ sample? (fun option => by cases option <;> rfl)] at hSample
  change some _ = Option.or _ (some false) at hDistinct
  rw [Option.or_some] at hDistinct
  rw [requested, ReadQuery.withColumns, hTable, hFilter, hLimit, hSample, Option.some.inj hDistinct]
  simp only [ReadQuery.ofTable, Option.or_none, settings]

/-- The columns of all options are those between their commas, one option behind the other. -/
theorem flatMap_valuesOf_columns (options : List QueryOption) :
    (valuesOf "columns" (options.map argument)).flatMap (ReadQuery.splitAt ',') =
      options.flatMap addedColumns := by
  induction options with
  | nil => rfl
  | cons option options ih =>
    rw [valuesOf] at ih ⊢
    cases option <;>
      simpa [argument, addedColumns, ReadQuery.splitAt_eq_splitOn, List.filterMap_cons] using ih

/-- Arguments in any order make the query that their options request. -/
theorem query?_argument {table : String} (hTable : .table table ∈ options)
    (hOnce : ∀ name ≠ "columns", (options.map QueryOption.name).count name ≤ 1) :
    Command.query? (options.map argument) = some (requested table options) := by
  have hLength (name : String) (hName : name ≠ "columns") :
      (valuesOf name (options.map argument)).length ≤ 1 := by
    have hCount := length_valuesOf_add_countFlag name options
    have hName := hOnce name hName
    omega
  have hTables : valuesOf "table" (options.map argument) = [table] := by
    have hPick := valuesOf_argument "table" table?
      (fun option => by cases option <;> rfl) options
    have hMem : table ∈ valuesOf "table" (options.map argument) := by
      rw [hPick]
      exact List.mem_filterMap.2 ⟨_, hTable, rfl⟩
    obtain ⟨name, hName⟩ := List.length_eq_one_iff.1
      (Nat.le_antisymm (hLength "table" (by decide)) (List.length_pos_of_mem hMem))
    rw [hName] at hMem ⊢
    rw [List.mem_singleton.1 hMem]
  have hFilter : atMostOne? (valuesOf "filter" (options.map argument)) =
      some ((options.filterMap setting?).filterMap ReadQuery.Setting.filter?).getLast? := by
    have hPick := valuesOf_argument "filter" (·.setting?.bind ReadQuery.Setting.filter?)
      (fun option => by cases option <;> rfl) options
    rw [atMostOne?_of_length_le (hLength "filter" (by decide)), List.filterMap_filterMap, hPick]
  have hDistinct : flag? "distinct" (options.map argument) =
      some (((options.filterMap setting?).filterMap
        ReadQuery.Setting.distinct?).getLast?.getD false) := by
    have hCount := length_valuesOf_add_countFlag "distinct" options
    have hName := hOnce "distinct" (by decide)
    rw [filterMap_distinct?, flag?]
    obtain hNone | hFlag : countFlag "distinct" (options.map argument) = 0 ∨
        countFlag "distinct" (options.map argument) = 1 := by omega
    · rw [hNone]
      rfl
    · rw [hFlag]
      rfl
  have hLimit := readUnsigneds?_valuesOf "limit" limit?
    (fun option => by cases option <;> rfl) (hLength "limit" (by decide))
  have hSample := readUnsigneds?_valuesOf "sample" sample?
    (fun option => by cases option <;> rfl) (hLength "sample" (by decide))
  rw [Command.query?, positionals_argument, hTables, flatMap_valuesOf_columns, hFilter, hDistinct,
    hLimit, hSample, requested_eq]

/-- The query command with one table, any number of columns and each other option
at most once, written in any order and in any way, shows the statement of the
query with the settings of the options, or the error in its filter. -/
theorem run_query {m : Type → Type} [Monad m] (readFile : String → m (Except FileError ByteArray))
    {table : String} {written : List (List String)} (hTable : .table table ∈ options)
    (hOnce : ∀ name ≠ "columns", (options.map QueryOption.name).count name ≤ 1)
    (hWritten : List.Forall₂ (fun option words => option.argument.IsWritten words)
      options written) :
    ∃ command, Command.ofArguments? ("query" :: written.flatten) = some command ∧
      command.run readFile =
        pure ((requested table options).toSql.mapError (.filterError ∘ .unreadable)) := by
  have hRead : readArguments Command.queryArity written.flatten = some (options.map argument) := by
    refine readArguments_flatten (List.forall₂_map_left_iff.2 hWritten) fun other hOther => ?_
    obtain ⟨option, -, rfl⟩ := List.mem_map.1 hOther
    exact option.fits_argument
  refine ⟨.query (requested table options), ?_, rfl⟩
  rw [Command.ofArguments?, hRead, Option.bind_some, query?_argument hTable hOnce, Option.map_some]

/-- The filter holds a comma, an equals sign and the name of an option. -/
theorem run_query_mixed :
    ∃ command, Command.ofArguments? ["query", "--columns=a,,b", "--limit", "+7",
        "--filter=x = '--limit=3,'", "--columns", "c", "--distinct", "--table", "s.t"] =
        some command ∧
      command.run (m := Id) (fun _ => .error .notFound) =
        (ReadQuery.mk "s.t" ["a", "", "b", "c"] (some "x = '--limit=3,'") true (some 7)
          none).toSql.mapError (.filterError ∘ .unreadable) := by
  let count : Count := ⟨"+7", 7, ['+'], ['7'], rfl, .inr rfl, by simp, by simp, rfl⟩
  let options : List QueryOption := [.columns "a,,b", .limit count, .filter "x = '--limit=3,'",
    .columns "c", .distinct, .table "s.t"]
  have hSeven : ¬ BeginsWithDash "+7" := by simp [BeginsWithDash]
  have hC : ¬ BeginsWithDash "c" := by simp [BeginsWithDash]
  have hName : ¬ BeginsWithDash "s.t" := by simp [BeginsWithDash]
  have hOnce (name : String) (hName : name ≠ "columns") :
      (options.map QueryOption.name).count name ≤ 1 := by
    rw [← List.count_filter (p := (· ≠ "columns")) (by simpa using hName)]
    exact List.nodup_iff_count.1 (by decide) name
  have hWritten : List.Forall₂ (fun option words => option.argument.IsWritten words) options
      [["--columns=a,,b"], ["--limit", "+7"], ["--filter=x = '--limit=3,'"], ["--columns", "c"],
        ["--distinct"], ["--table", "s.t"]] := by
    refine .cons ?_ (.cons ?_ (.cons ?_ (.cons ?_ (.cons ?_ (.cons ?_ .nil)))))
    · simpa [argument] using Argument.IsWritten.attached "columns" "a,,b"
    · simpa [argument] using Argument.IsWritten.separate "limit" hSeven
    · simpa [argument] using Argument.IsWritten.attached "filter" "x = '--limit=3,'"
    · simpa [argument] using Argument.IsWritten.separate "columns" hC
    · simpa [argument] using Argument.IsWritten.flag "distinct"
    · simpa [argument] using Argument.IsWritten.separate "table" hName
  have hTable : .table "s.t" ∈ options := by simp [options]
  exact run_query (m := Id) _ hTable hOnce hWritten

end QueryOption

end CommandLine

end RowFilter
