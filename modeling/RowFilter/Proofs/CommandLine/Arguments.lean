import Mathlib.Data.List.Forall2
import Mathlib.Data.List.TakeWhile
import RowFilter.CommandLine.Arguments
import RowFilter.Proofs.Text.Stops

/-! The ways to write arguments, and reading them back. An argument takes the
words it was written with and no word behind them, so that a sequence of
arguments is read argument by argument. -/

namespace RowFilter.CommandLine

open Text

def BeginsWithDash (text : String) : Prop :=
  ∃ rest, text.toList = '-' :: rest

/-- The words are a way to write the argument. -/
inductive Argument.IsWritten : Argument → List String → Prop where
  | positional {text : String} (hText : ¬ BeginsWithDash text) : IsWritten (.positional text) [text]
  | flag (name : String) : IsWritten (.flag name) ["--" ++ name]
  /-- The value is a word of its own. -/
  | separate (name : String) {value : String} (hValue : ¬ BeginsWithDash value) :
    IsWritten (.option name value) ["--" ++ name, value]
  /-- The value stands behind an equals sign, whatever it begins with. -/
  | attached (name value : String) : IsWritten (.option name value) ["--" ++ name ++ "=" ++ value]

/-- A name that an option can have. -/
def IsOptionName (name : String) : Prop :=
  name ≠ "" ∧ '=' ∉ name.toList

/-- The argument is one that options with these arities allow. -/
def Argument.Fits (arity : String → Option Arity) : Argument → Prop
  | positional _ => True
  | flag name => arity name = some .flag ∧ IsOptionName name
  | option name _ => arity name = some .valued ∧ IsOptionName name

/-- What does not begin with a dash can be the value of an option. -/
theorem canBeValue_of_not_beginsWithDash {text : String} (h : ¬ BeginsWithDash text) :
    canBeValue text = true := by
  rw [canBeValue]
  split
  · next rest hText => exact absurd ⟨_, hText⟩ h
  · rfl

private theorem splitOption_eq {name : List Char} (hName : '=' ∉ name) :
    splitOption name = (String.ofList name, none) := by
  have hAll : ∀ c ∈ name, decide (c ≠ '=') = true := fun c hC =>
    decide_eq_true fun hEq => hName (hEq ▸ hC)
  simp only [splitOption, List.dropWhile_eq_nil_iff.2 hAll, List.takeWhile_eq_self_iff.2 hAll]

private theorem splitOption_append_equals {name : List Char} (hName : '=' ∉ name)
    (value : List Char) :
    splitOption (name ++ '=' :: value) = (String.ofList name, some (String.ofList value)) := by
  have hAll : ∀ c ∈ name, decide (c ≠ '=') = true := fun c hC =>
    decide_eq_true fun hEq => hName (hEq ▸ hC)
  have hStops : StopsAt (· ≠ '=') ('=' :: value) := rfl
  simp only [splitOption, hStops.dropWhile_append hAll, hStops.takeWhile_append hAll]

section

variable {arity : String → Option Arity}

/-- The name of an option is not empty. -/
theorem IsOptionName.exists_cons {name : String} (h : IsOptionName name) :
    ∃ c rest, name.toList = c :: rest :=
  List.exists_cons_of_ne_nil fun hNil => h.1 (String.toList_eq_nil_iff.1 hNil)

/-- A word of an option that is its name only. -/
theorem IsOptionName.toList_eq {name : String} (h : IsOptionName name) :
    ∃ c rest, ("--" ++ name).toList = '-' :: '-' :: c :: rest ∧
      splitOption (c :: rest) = (name, none) := by
  obtain ⟨c, rest, hCons⟩ := h.exists_cons
  refine ⟨c, rest, by simp [hCons], ?_⟩
  rw [← hCons, splitOption_eq h.2, String.ofList_toList]

/-- A word of an option that is its name and its value. -/
theorem IsOptionName.toList_append_eq {name : String} (h : IsOptionName name) (value : String) :
    ∃ c rest, ("--" ++ name ++ "=" ++ value).toList = '-' :: '-' :: c :: rest ∧
      splitOption (c :: rest) = (name, some value) := by
  obtain ⟨c, rest, hCons⟩ := h.exists_cons
  refine ⟨c, rest ++ '=' :: value.toList, by simp [hCons], ?_⟩
  rw [← List.cons_append, ← hCons, splitOption_append_equals h.2, String.ofList_toList,
    String.ofList_toList]

/-- Behind the words of an argument, the other arguments are read. -/
theorem Argument.IsWritten.readArguments_append {argument : Argument} {words : List String}
    (hWritten : argument.IsWritten words) (hFits : argument.Fits arity) (texts : List String) :
    readArguments arity (words ++ texts) = (readArguments arity texts).map (argument :: ·) := by
  cases hWritten with
  | @positional text hText =>
    rw [List.singleton_append, readArguments]
    split
    · next hDashes => exact absurd ⟨_, hDashes⟩ hText
    · next hDashes => exact absurd ⟨_, hDashes⟩ hText
    · next hDash => exact absurd ⟨_, hDash⟩ hText
    · rfl
  | flag name =>
    obtain ⟨hArity, hName⟩ := hFits
    obtain ⟨_, _, hText, hSplit⟩ := hName.toList_eq
    rw [List.singleton_append, readArguments]
    simp only [hText, hSplit, hArity]
  | @separate name value hValue =>
    obtain ⟨hArity, hName⟩ := hFits
    obtain ⟨_, _, hText, hSplit⟩ := hName.toList_eq
    rw [List.cons_append, List.singleton_append, readArguments]
    simp only [hText, hSplit, hArity, canBeValue_of_not_beginsWithDash hValue, if_true]
  | attached name value =>
    obtain ⟨hArity, hName⟩ := hFits
    obtain ⟨_, _, hText, hSplit⟩ := hName.toList_append_eq value
    rw [List.singleton_append, readArguments]
    simp only [hText, hSplit, hArity]

/-- Arguments are read back from the words they are written with. -/
theorem readArguments_flatten {arguments : List Argument} {written : List (List String)}
    (hWritten : List.Forall₂ Argument.IsWritten arguments written)
    (hFits : ∀ argument ∈ arguments, argument.Fits arity) :
    readArguments arity written.flatten = some arguments := by
  induction hWritten with
  | nil => rfl
  | @cons argument words arguments written hWords _ ih =>
    rw [List.flatten_cons, hWords.readArguments_append (hFits argument List.mem_cons_self),
      ih fun other hOther => hFits other (List.mem_cons_of_mem argument hOther), Option.map_some]

end

end RowFilter.CommandLine
