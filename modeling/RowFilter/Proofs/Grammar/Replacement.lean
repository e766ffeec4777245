import RowFilter.Proofs.Grammar.Locality

/-! Texts with replaced characters. If no test of a grammar tells a character
from the one that replaces it, then a text is read like the text with its
characters replaced, piece by piece. -/

namespace RowFilter.Grammar

variable {R : Type} {f : Char → Char}

namespace Piece

mutual

def replace (f : Char → Char) : Piece R → Piece R
  | char c => char (f c)
  | shown rule pieces => shown rule (replaceAll f pieces)

def replaceAll (f : Char → Char) : List (Piece R) → List (Piece R)
  | [] => []
  | piece :: pieces => replace f piece :: replaceAll f pieces

end

private theorem replaceAll_append (first second : List (Piece R)) :
    replaceAll f (first ++ second) = replaceAll f first ++ replaceAll f second := by
  induction first with
  | nil => rfl
  | cons piece first ih => rw [List.cons_append, replaceAll, ih, replaceAll, List.cons_append]

private theorem replaceAll_chars (text : List Char) :
    replaceAll f (chars text : List (Piece R)) = chars (text.map f) := by
  induction text with
  | nil => rfl
  | cons c text ih =>
    rw [List.map_cons]
    change replace f (.char c) :: replaceAll f (chars text) = _
    rw [ih]
    rfl

/-- The induction is on the pieces and on those of each match among them. -/
theorem textOf_replaceAll (pieces : List (Piece R)) :
    textOf (replaceAll f pieces) = (textOf pieces).map f := by
  match pieces with
  | [] => rfl
  | .char c :: pieces =>
    rw [replaceAll, textOf, textOf, textOf_replaceAll pieces, List.map_append]
    rfl
  | .shown rule parts :: pieces =>
    rw [replaceAll, replace, textOf, textOf, text, text, textOf_replaceAll parts,
      textOf_replaceAll pieces, List.map_append]

end Piece

def Outcome.replace (f : Char → Char) (outcome : Outcome R) : Outcome R :=
  outcome.map fun (pieces, rest) => (Piece.replaceAll f pieces, rest.map f)

/-- Whether no test of an expression tells a character from the one that replaces it. -/
def Expr.Ignores (f : Char → Char) : Expr R → Prop
  | .literal text => ∀ a ∈ text.toList, ∀ c, a = f c ↔ a = c
  | .word text => ∀ a ∈ text.toList, ∀ c, sameLetter a (f c) = sameLetter a c
  | .oneOf accepts => ∀ c, accepts (f c) = accepts c
  | .atStart | .atEnd | .rule _ => True
  | .seq first second | .choice first second => first.Ignores f ∧ second.Ignores f
  | .optional body | .many body | .unless body => body.Ignores f

private theorem ofTaken_map {tests : List (Char → Bool)}
    (hTests : ∀ test ∈ tests, ∀ c, test (f c) = test c) (text : List Char) :
    Outcome.ofTaken (takeAll? tests (text.map f)) =
      Outcome.replace (R := R) f (.ofTaken (takeAll? tests text)) := by
  have hTaken : takeAll? tests (text.map f) =
      (takeAll? tests text).map (Prod.map (List.map f) (List.map f)) := by
    induction tests generalizing text with
    | nil => rfl
    | cons test tests ih =>
      rw [List.forall_mem_cons] at hTests
      cases text with
      | nil => rfl
      | cons c text =>
        rw [List.map_cons, takeAll?, takeAll?, hTests.1 c, ih hTests.2]
        split
        · rw [Option.map_map, Option.map_map]
          rfl
        · rfl
  rw [hTaken, Outcome.ofTaken, Outcome.ofTaken, Outcome.replace, Option.map_map, Option.map_map]
  congr 1
  funext part
  exact congrArg (·, part.2.map f) (Piece.replaceAll_chars part.1).symm

private theorem Outcome.replace_ofBody (shows : Bool) (rule : R) (outcome : Outcome R) :
    (outcome.replace f).ofBody shows rule = (outcome.ofBody shows rule).replace f := by
  cases shows with
  | false => rfl
  | true => cases outcome <;> rfl

private theorem Outcome.replace_ite (test : Prop) [Decidable test] (text : List Char) :
    (if test then some ([], text.map f) else none : Outcome R) =
      Outcome.replace f (if test then some ([], text) else none) := by
  split <;> rfl

section Reads

variable {grammar : Grammar R}

private theorem gap_map (hBlank : ∀ c, grammar.isBlank (f c) = grammar.isBlank c) (mode : Mode)
    (text : List Char) :
    mode.gap grammar.isBlank (text.map f) = (mode.gap grammar.isBlank text).map f ∧
      mode.behindGap grammar.isBlank (text.map f) =
        (mode.behindGap grammar.isBlank text).map f := by
  have hClass : grammar.isBlank ∘ f = grammar.isBlank := funext hBlank
  rw [Mode.gap, Mode.gap, Mode.behindGap, Mode.behindGap]
  cases mode.skipsBlanks with
  | false => exact ⟨rfl, rfl⟩
  | true => simp [List.takeWhile_map, List.dropWhile_map, hClass]

/-- What is read of a text is read, with its characters replaced, of the text with its characters
replaced. -/
theorem Reads.replace (hBlank : ∀ c, grammar.isBlank (f c) = grammar.isBlank c)
    (hRules : ∀ rule, (grammar.body rule).Ignores f) {length : Nat} {task : Task R} {mode : Mode}
    {text : List Char} {outcome : Outcome R} (h : Reads grammar length task mode text outcome)
    (hTask : task.expr.Ignores f) :
    Reads grammar length task mode (text.map f) (outcome.replace f) := by
  induction h with
  | literal word mode text =>
    rw [← ofTaken_map]
    · exact .literal word mode _
    · exact List.forall_mem_map.2 fun a ha c => decide_eq_decide.2 (hTask a ha c)
  | word word mode text =>
    rw [← ofTaken_map]
    · exact .word word mode _
    · exact List.forall_mem_map.2 hTask
  | oneOf accepts mode text =>
    rw [← ofTaken_map]
    · exact .oneOf accepts mode _
    · exact List.forall_mem_singleton.2 hTask
  | atStart mode text =>
    have hStart : Reads grammar length (.once .atStart) mode (text.map f) _ := .atStart mode _
    rwa [List.length_map, Outcome.replace_ite] at hStart
  | atEnd mode text =>
    have hEnd : Reads grammar length (.once .atEnd) mode (text.map f) _ := .atEnd mode _
    rwa [List.isEmpty_map, Outcome.replace_ite] at hEnd
  | rule _ ih =>
    rw [← Outcome.replace_ofBody]
    exact .rule (ih (hRules _))
  | seqFirst _ ih => exact .seqFirst (ih hTask.1)
  | seqSecond _ _ ihFirst ihSecond =>
    have hSecond := ihSecond hTask.2
    rw [← (gap_map hBlank _ _).2] at hSecond
    exact .seqSecond (ihFirst hTask.1) hSecond
  | seq _ _ ihFirst ihSecond =>
    have hSecond := ihSecond hTask.2
    rw [← (gap_map hBlank _ _).2] at hSecond
    have hSeq := Reads.seq (ihFirst hTask.1) hSecond
    rwa [(gap_map hBlank _ _).1, ← Piece.replaceAll_chars, ← Piece.replaceAll_append,
      ← Piece.replaceAll_append] at hSeq
  | choiceFirst _ ih => exact .choiceFirst (ih hTask.1)
  | choiceSecond _ _ ihFirst ihSecond => exact .choiceSecond (ihFirst hTask.1) (ihSecond hTask.2)
  | optionalSome _ ih => exact .optionalSome (ih hTask)
  | optionalNone _ ih => exact .optionalNone (ih hTask)
  | unlessSome _ ih => exact .unlessSome (ih hTask)
  | unlessNone _ ih => exact .unlessNone (ih hTask)
  | manyNone _ ih => exact .manyNone (ih hTask)
  | many _ _ ihBody ihAgain =>
    have hMany := Reads.many (ihBody hTask) (ihAgain hTask)
    rwa [← Piece.replaceAll_append] at hMany
  | againNone _ ih =>
    have hBody := ih hTask
    rw [← (gap_map hBlank _ _).2] at hBody
    exact .againNone hBody
  | again _ _ ihBody ihAgain =>
    have hBody := ihBody hTask
    rw [← (gap_map hBlank _ _).2] at hBody
    have hAgain := Reads.again hBody (ihAgain hTask)
    rwa [(gap_map hBlank _ _).1, ← Piece.replaceAll_chars, ← Piece.replaceAll_append,
      ← Piece.replaceAll_append] at hAgain

end Reads

end RowFilter.Grammar
