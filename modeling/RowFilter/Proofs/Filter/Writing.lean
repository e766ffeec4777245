import RowFilter.Proofs.Filter.Polish
import RowFilter.Proofs.Filter.Preorder

/-! The writer of a rendering, round by round. A round writes a text or puts the
fragments of a filter in its place. So whatever is read off fragments one by one,
and off a filter as off its fragments, stays the same from the first round to the
last for all that is written and pending together. In Polish notation this gives
the order in which the nodes begin. -/

namespace RowFilter

open StateTransition

/-- A writer under way: the texts it has written, in order, and what is still to be written. -/
structure Writing where
  written : List String
  pending : List Fragment

namespace Writing

def out (writing : Writing) : String := String.join writing.written

/-- All that a writer has written and has still to write. -/
def fragments (writing : Writing) : List Fragment :=
  writing.written.map .text ++ writing.pending

def start (f : Filter) : Writing := ⟨[], [.filter f]⟩

end Writing

namespace Rendering

/-- The writing after one more round, unless nothing is pending. -/
def next? (rendering : Rendering) : Writing → Option Writing
  | ⟨_, []⟩ => none
  | ⟨written, .text text :: pending⟩ => some ⟨written ++ [text], pending⟩
  | ⟨written, .filter f :: pending⟩ => some ⟨written, rendering.fragments f ++ pending⟩

variable {rendering : Rendering} {writing later : Writing}

/-- A round writes the next text, or replaces the next filter by its fragments. -/
theorem next?_eq_some (h : rendering.next? writing = some later) :
    (∃ written text pending, writing = ⟨written, .text text :: pending⟩ ∧
      later = ⟨written ++ [text], pending⟩) ∨
    ∃ written f pending, writing = ⟨written, .filter f :: pending⟩ ∧
      later = ⟨written, rendering.fragments f ++ pending⟩ := by
  obtain ⟨written, _ | ⟨text | f, pending⟩⟩ := writing
  · cases h
  · exact .inl ⟨written, text, pending, rfl, (Option.some.inj h).symm⟩
  · exact .inr ⟨written, f, pending, rfl, (Option.some.inj h).symm⟩

/-- A round is one recursion of the writer. -/
theorem write_of_next? (h : rendering.next? writing = some later) :
    rendering.write later.out later.pending = rendering.write writing.out writing.pending := by
  rcases next?_eq_some h with ⟨written, text, pending, rfl, rfl⟩ | ⟨written, f, pending, rfl, rfl⟩
  · conv_rhs => rw [write]
    rw [Writing.out, Writing.out, String.join_append, String.join_cons, String.join_nil,
      String.append_empty]
  · rw [write]
    rfl

/-- The text of a writing is the same from each of its rounds on. -/
theorem write_of_reaches (h : Reaches rendering.next? writing later) :
    rendering.write later.out later.pending = rendering.write writing.out writing.pending :=
  eq_of_reaches (fun writing => rendering.write writing.out writing.pending)
    (fun _ _ => write_of_next?) h

private theorem exists_reaches (rendering : Rendering) (out : String) (pending : List Fragment)
    (written : List String) : ∃ all, Reaches rendering.next? ⟨written, pending⟩ ⟨all, []⟩ := by
  fun_induction rendering.write out pending generalizing written with
  | case1 => exact ⟨written, .refl⟩
  | case2 out text pending ih =>
    obtain ⟨all, hRun⟩ := ih (written ++ [text])
    exact ⟨all, .head rfl hRun⟩
  | case3 out f pending ih =>
    obtain ⟨all, hRun⟩ := ih written
    exact ⟨all, .head rfl hRun⟩

section View

variable {α : Type} {view : Fragment → List α}

/-- What is read off a filter as off its fragments is kept by a round. -/
theorem view_of_next? (hView : ∀ f, view (.filter f) = (rendering.fragments f).flatMap view)
    (h : rendering.next? writing = some later) :
    later.fragments.flatMap view = writing.fragments.flatMap view := by
  rcases next?_eq_some h with ⟨written, text, pending, rfl, rfl⟩ | ⟨written, f, pending, rfl, rfl⟩
  · simp [Writing.fragments]
  · simp [Writing.fragments, hView]

/-- What can be read off the fragments is the same in each round. -/
theorem view_of_reaches (hView : ∀ f, view (.filter f) = (rendering.fragments f).flatMap view)
    (h : Reaches rendering.next? writing later) :
    later.fragments.flatMap view = writing.fragments.flatMap view :=
  eq_of_reaches (·.fragments.flatMap view) (fun _ _ => view_of_next? hView) h

end View

/-- A writing ends with nothing pending, and what is written then is the text of the filter. -/
theorem exists_mem_eval (rendering : Rendering) (f : Filter) :
    ∃ written, ⟨written, []⟩ ∈ eval rendering.next? (.start f) ∧
      String.join written = f.render rendering := by
  obtain ⟨written, hRun⟩ := exists_reaches rendering "" [.filter f] []
  refine ⟨written, mem_eval.2 ⟨hRun, rfl⟩, ?_⟩
  calc String.join written
      = rendering.write (String.join written) [] := by rw [write]
    _ = rendering.write "" [.filter f] := write_of_reaches hRun
    _ = f.render rendering := rfl

end Rendering

namespace Polish

/-- The text with which a filter in Polish notation begins, in front of its operands: all of a
condition, and of an operation the parenthesis and the operator. -/
def head : Filter → String
  | .condition c _ => condition c
  | .and _ _ _ => "(AND "
  | .or _ _ _ => "(OR "
  | .not _ _ => "(NOT "

/-- Whether a text stands between or behind operands. -/
def isSeparator (text : String) : Bool := text = " " || text = ")"

/-- The heads of the nodes that a fragment writes, in preorder. -/
def heads : Fragment → List String
  | .text text => if isSeparator text then [] else [text]
  | .filter f => f.preorder.map head

theorem isSeparator_condition (c : Condition) : isSeparator (condition c) = false := by
  have hText := c.toList_polish
  simp only [isSeparator, Bool.or_eq_false_iff, decide_eq_false_iff_not]
  constructor
  · intro h
    rw [h] at hText
    cases hText
  · intro h
    rw [h] at hText
    cases hText

/-- The heads of a filter are those of its fragments. -/
theorem heads_filter (f : Filter) : heads (.filter f) = (rendering.fragments f).flatMap heads := by
  cases f with
  | condition c span =>
    simp [rendering, fragments, heads, Filter.preorder, head, isSeparator_condition]
  | and | or | not => simp [rendering, fragments, heads, Filter.preorder, head, isSeparator]

theorem flatMap_heads (texts : List String) :
    (texts.map Fragment.text).flatMap heads = texts.filter (!isSeparator ·) := by
  induction texts with
  | nil => rfl
  | cons text texts ih =>
    rw [List.map_cons, List.flatMap_cons, ih, List.filter_cons, heads]
    cases isSeparator text <;> rfl

end Polish

namespace Filter

theorem toPolish_condition (c : Condition) (span : Span) :
    (condition c span).toPolish = Polish.condition c := by
  rw [← String.toList_inj, toList_toPolish, c.toList_polish]
  rfl

theorem toPolish_and (left right : Filter) (span : Span) :
    (and left right span).toPolish =
      "(AND " ++ left.toPolish ++ " " ++ right.toPolish ++ ")" := by
  rw [← String.toList_inj, toList_toPolish]
  simp [polishOperator, polishOperands]

theorem toPolish_or (left right : Filter) (span : Span) :
    (or left right span).toPolish =
      "(OR " ++ left.toPolish ++ " " ++ right.toPolish ++ ")" := by
  rw [← String.toList_inj, toList_toPolish]
  simp [polishOperator, polishOperands]

theorem toPolish_not (operand : Filter) (span : Span) :
    (not operand span).toPolish = "(NOT " ++ operand.toPolish ++ ")" := by
  rw [← String.toList_inj, toList_toPolish]
  simp [polishOperator, polishOperands]

/-- Polish notation follows the structure of a filter: an operation is its head, the notations of
its operands with a blank in between, and a parenthesis. The writer comes to an end with nothing
pending. It has written the notation then, and in it the heads of the nodes in preorder, with
nothing else than blanks and parentheses between and behind them. -/
theorem toPolish_structural :
    (∀ c span, (condition c span).toPolish = Polish.condition c) ∧
      (∀ left right span, (and left right span).toPolish =
        "(AND " ++ left.toPolish ++ " " ++ right.toPolish ++ ")") ∧
      (∀ left right span, (or left right span).toPolish =
        "(OR " ++ left.toPolish ++ " " ++ right.toPolish ++ ")") ∧
      (∀ operand span, (not operand span).toPolish = "(NOT " ++ operand.toPolish ++ ")") ∧
      ∀ filter : Filter, ∃ written,
        ⟨written, []⟩ ∈ StateTransition.eval Polish.rendering.next? (.start filter) ∧
          String.join written = filter.toPolish ∧
          written.filter (!Polish.isSeparator ·) = filter.preorder.map Polish.head := by
  refine ⟨toPolish_condition, toPolish_and, toPolish_or, toPolish_not, fun filter => ?_⟩
  obtain ⟨written, hEval, hText⟩ := Rendering.exists_mem_eval Polish.rendering filter
  refine ⟨written, hEval, hText, ?_⟩
  calc written.filter (!Polish.isSeparator ·)
      = (Writing.mk written []).fragments.flatMap Polish.heads := by
        rw [Writing.fragments, List.append_nil, Polish.flatMap_heads]
    _ = (Writing.start filter).fragments.flatMap Polish.heads :=
        Rendering.view_of_reaches Polish.heads_filter (mem_eval.1 hEval).1
    _ = filter.preorder.map Polish.head := List.flatMap_singleton ..

end Filter

end RowFilter
