import Mathlib.Data.List.DropRight
import RowFilter.CommandLine.Command
import RowFilter.Proofs.CommandLine.Arguments
import RowFilter.Proofs.Syntax.TrailingGap

/-! Filters from files. A command shows the same for a filter in a file as for
the filter among its arguments. The blanks at the end of a file are dropped, and
where they are gaps they do not matter to the filter. -/

namespace RowFilter.CommandLine

open Text

inductive Form where
  | polish
  | dnf (pretty : Bool)
  | postgres
  | tree
deriving DecidableEq, Repr

namespace Form

def name : Form → String
  | polish => "prefix"
  | dnf _ => "dnf"
  | postgres => "psql"
  | tree => "ast"

/-- The arguments of the command beside the filter. -/
def flags : Form → List Argument
  | dnf pretty => if pretty then [.flag "pretty"] else []
  | polish | postgres | tree => []

def command : Form → Source → Command
  | polish => .polish
  | dnf pretty => fun source => .dnf source pretty
  | postgres => .postgres
  | tree => .tree

def shown : Form → String → Except FilterError String
  | polish => fun text => (Compile.polish text).mapError .unreadable
  | dnf pretty => Command.dnfJson pretty
  | postgres => fun text => (Compile.postgres text).mapError .unreadable
  | tree => fun text => (Command.treeJson text).mapError .unreadable

end Form

/-- The argument that gives a source. -/
def Source.argument : Source → Argument
  | inline filter => .positional filter
  | file path => .option "file" path

section Arguments

variable {form : Form} {source : Source} {arguments : List Argument}

theorem Form.eq_flag_of_mem_flags {argument : Argument} (h : argument ∈ form.flags) :
    form = .dnf true ∧ argument = .flag "pretty" := by
  rcases form with _ | (_ | _) | _ | _ <;> simp [Form.flags] at h
  exact ⟨rfl, h⟩

theorem Form.positionals_flags (form : Form) : positionals form.flags = [] := by
  refine List.filterMap_eq_nil_iff.2 fun argument hArgument => ?_
  rw [(Form.eq_flag_of_mem_flags hArgument).2]

theorem Form.valuesOf_flags (form : Form) (name : String) : valuesOf name form.flags = [] := by
  refine List.filterMap_eq_nil_iff.2 fun argument hArgument => ?_
  rw [(Form.eq_flag_of_mem_flags hArgument).2]

/-- The source of a filter is found wherever it stands among the arguments. -/
theorem source?_of_perm (hSource : source ≠ .file "")
    (h : arguments.Perm (source.argument :: form.flags)) :
    Command.source? arguments = some source := by
  have hPositionals : (positionals arguments).Perm (positionals (source.argument :: form.flags)) :=
    h.filterMap _
  have hFiles : (valuesOf "file" arguments).Perm
      (valuesOf "file" (source.argument :: form.flags)) := h.filterMap _
  cases source with
  | inline filter =>
    have hOne : positionals (Source.argument (.inline filter) :: form.flags) = [filter] :=
      congrArg (filter :: ·) form.positionals_flags
    have hNone : valuesOf "file" (Source.argument (.inline filter) :: form.flags) = [] :=
      form.valuesOf_flags "file"
    rw [hOne, List.perm_singleton] at hPositionals
    rw [hNone, List.perm_nil] at hFiles
    rw [Command.source?, hPositionals, hFiles]
  | file path =>
    have hNone : positionals (Source.argument (.file path) :: form.flags) = [] :=
      form.positionals_flags
    have hOne : valuesOf "file" (Source.argument (.file path) :: form.flags) = [path] :=
      congrArg (path :: ·) (form.valuesOf_flags "file")
    have hPath : path ≠ "" := fun hEmpty => hSource (congrArg Source.file hEmpty)
    rw [hNone, List.perm_nil] at hPositionals
    rw [hOne, List.perm_singleton] at hFiles
    simp [Command.source?, hPositionals, hFiles, hPath]

/-- The arguments of a command fit it. -/
theorem Form.fits_of_perm (h : arguments.Perm (source.argument :: form.flags)) (withPretty : Bool)
    (hPretty : form = .dnf true → withPretty = true) :
    ∀ argument ∈ arguments, argument.Fits (Command.filterArity withPretty) := by
  intro argument hArgument
  rcases List.mem_cons.1 (h.mem_iff.1 hArgument) with rfl | hFlag
  · cases source with
    | inline => trivial
    | file => exact ⟨rfl, by decide, by decide⟩
  · obtain ⟨hForm, rfl⟩ := Form.eq_flag_of_mem_flags hFlag
    rw [hPretty hForm]
    exact ⟨rfl, by decide, by decide⟩

/-- The arguments of a command may be in any order and written in any way. -/
theorem ofArguments?_of_perm (hSource : source ≠ .file "")
    (h : arguments.Perm (source.argument :: form.flags)) {written : List (List String)}
    (hWritten : List.Forall₂ Argument.IsWritten arguments written) :
    Command.ofArguments? (form.name :: written.flatten) = some (form.command source) := by
  have hFound := source?_of_perm hSource h
  cases form with
  | dnf pretty =>
    have hRead := readArguments_flatten hWritten (Form.fits_of_perm h true fun _ => rfl)
    have hCount : countFlag "pretty" arguments = if pretty then 1 else 0 := by
      rw [countFlag, h.countP_eq]
      cases source <;> cases pretty <;> rfl
    have hFlag : flag? "pretty" arguments = some pretty := by
      rw [flag?, hCount]
      cases pretty <;> rfl
    simp [Form.name, Command.ofArguments?, hRead, hFound, hFlag, Form.command]
  | polish | postgres | tree =>
    have hRead := readArguments_flatten hWritten (Form.fits_of_perm h false nofun)
    simp [Form.name, Command.ofArguments?, Command.sourceOf?, hRead, hFound, Form.command]

end Arguments

section Files

/-- A text is what its UTF-8 form is decoded to. -/
theorem fromUTF8?_toUTF8 (text : String) : String.fromUTF8? text.toUTF8 = some text := by
  simp only [String.fromUTF8?, String.toUTF8_eq_toByteArray, dif_pos text.isValidUTF8]
  rfl

/-- The bytes of a text are read as the text without the blanks at its end. -/
theorem decodeFile_toUTF8 (text : String) :
    decodeFile text.toUTF8 = .ok (String.ofList (trimEnd isBlank text.toList)) := by
  rw [decodeFile, fromUTF8?_toUTF8]

/-- The blanks at the end do not matter to what a text spells if they are gaps. -/
theorem parse_trimEnd {text : String}
    (hBlanks : ∀ c ∈ text.toList.rtakeWhile isBlank, isGap c = true) :
    (Filter.parse (String.ofList (trimEnd isBlank text.toList))).toOption =
      (Filter.parse text).toOption := by
  refine (Filter.parse_append_gaps ?_ hBlanks).symm
  rw [String.toList_ofList]
  exact List.rdropWhile_append_rtakeWhile.symm

/-- What is shown for a text depends on the filter that it spells. -/
theorem Form.shown_eq_of_parse (form : Form) {first second : String}
    (h : (Filter.parse first).toOption = (Filter.parse second).toOption) :
    (form.shown first).toOption = (form.shown second).toOption := by
  rcases toOption_eq_iff.1 h with ⟨filter, hFirst, hSecond⟩ | ⟨_, _, hFirst, hSecond⟩ <;>
    cases form <;>
    simp [Form.shown, Compile.polish, Compile.postgres, Command.treeJson, Command.dnfJson,
      Compile.dnf, hFirst, hSecond] <;> rfl

end Files

section Commands

variable {m : Type → Type} [Monad m] [LawfulMonad m]
  {readFile : String → m (Except FileError ByteArray)}

/-- A command shows the text that its source gives. -/
theorem run_command (form : Form) {source : Source} {text : Except Failure String}
    (h : source.read readFile = pure text) :
    (form.command source).run readFile = pure (Command.present form.shown text) := by
  cases form <;> simp [Form.command, Command.run, h, Form.shown]

/-- A command succeeds exactly if the filter has the form. -/
theorem present_eq_ok_iff {form : Form} {filter text : String} :
    Command.present form.shown (.ok filter) = .ok text ↔
      (form.shown filter).toOption = some text := by
  rw [Command.present]
  cases hShown : form.shown filter <;> simp [Except.bind, Except.mapError, Except.toOption, hShown]

/-- A filter in a file means the same as the filter among the arguments. For each
form, each text whose trailing run of blanks has no characters but space, tab, carriage
return and line feed, and each file with the bytes of the text: with its arguments
in any order and written in any way, the command succeeds on the text if and only if
it does on the file, and what both show is the same. -/
theorem run_file_iff (form : Form) {filter path : String}
    {inlineArguments fileArguments : List Argument} {inlineWords fileWords : List (List String)}
    (hBlanks : ∀ c ∈ filter.toList.rtakeWhile isBlank, isGap c = true) (hPath : path ≠ "")
    (hFile : readFile path = pure (.ok filter.toUTF8))
    (hInline : inlineArguments.Perm (.positional filter :: form.flags))
    (hInlineWords : List.Forall₂ Argument.IsWritten inlineArguments inlineWords)
    (hFromFile : fileArguments.Perm (.option "file" path :: form.flags))
    (hFileWords : List.Forall₂ Argument.IsWritten fileArguments fileWords) :
    ∃ inline file, Command.ofArguments? (form.name :: inlineWords.flatten) = some inline ∧
      Command.ofArguments? (form.name :: fileWords.flatten) = some file ∧
      ∃ shown read, inline.run readFile = pure shown ∧ file.run readFile = pure read ∧
        ∀ text, shown = .ok text ↔ read = .ok text := by
  have hInlineRead : (Source.inline filter).read readFile = pure (.ok filter) := rfl
  have hFileRead : (Source.file path).read readFile =
      pure (.ok (String.ofList (trimEnd isBlank filter.toList))) := by
    rw [Source.read, hFile, pure_bind]
    change pure ((decodeFile filter.toUTF8).mapError _) = _
    rw [decodeFile_toUTF8]
    rfl
  have hNoFile : Source.inline filter ≠ .file "" := nofun
  have hInlineCommand : Command.ofArguments? (form.name :: inlineWords.flatten) =
      some (form.command (.inline filter)) := ofArguments?_of_perm hNoFile hInline hInlineWords
  have hFileCommand : Command.ofArguments? (form.name :: fileWords.flatten) =
      some (form.command (.file path)) :=
    ofArguments?_of_perm (fun h => hPath (Source.file.inj h)) hFromFile hFileWords
  refine ⟨_, _, hInlineCommand, hFileCommand, _, _, run_command form hInlineRead,
    run_command form hFileRead, fun text => ?_⟩
  rw [present_eq_ok_iff, present_eq_ok_iff, form.shown_eq_of_parse (parse_trimEnd hBlanks)]

/-- The text ends with a quoted blank and a quote behind it, and then with a line end and a tab. -/
theorem run_file_iff_pretty :
    let filter := "a IN ('it\\'s ', 2)\r\n\t"
    let readFile : String → Id (Except FileError ByteArray) := fun _ => .ok filter.toUTF8
    ∃ inline file, Command.ofArguments? ["dnf", filter, "--pretty"] = some inline ∧
      Command.ofArguments? ["dnf", "--pretty", "--file=-f"] = some file ∧
      ∃ shown read, inline.run readFile = pure shown ∧ file.run readFile = pure read ∧
        ∀ text, shown = .ok text ↔ read = .ok text := by
  intro filter readFile
  have hDash : ¬BeginsWithDash filter := by simp [BeginsWithDash, filter]
  have hBlanks : ∀ c ∈ filter.toList.rtakeWhile isBlank, isGap c = true :=
    List.all_eq_true.1 (by decide +kernel)
  have hInlineWords : List.Forall₂ Argument.IsWritten [.positional filter, .flag "pretty"]
      [[filter], ["--pretty"]] := .cons (.positional hDash) (.cons (.flag "pretty") .nil)
  have hFileWords : List.Forall₂ Argument.IsWritten [.flag "pretty", .option "file" "-f"]
      [["--pretty"], ["--file=-f"]] :=
    .cons (.flag "pretty") (.cons (.attached "file" "-f") .nil)
  exact run_file_iff (.dnf true) hBlanks (by simp) rfl (.refl _) hInlineWords (.swap _ _ _)
    hFileWords

end Commands

end RowFilter.CommandLine
