import RowFilter.Filter.Rendering

/-! The text of a filter from the texts of its parts. The writer works off a
list of fragments, which comes to the same as putting the texts of the
fragments one behind the other. -/

namespace RowFilter

namespace Rendering

variable (rendering : Rendering)

def fragmentText : Fragment → List Char
  | .text text => text.toList
  | .filter f => (f.render rendering).toList

def fragmentsText (fragments : List Fragment) : List Char :=
  fragments.flatMap rendering.fragmentText

private theorem append_write (front out : String) (fragments : List Fragment) :
    rendering.write (front ++ out) fragments = front ++ rendering.write out fragments := by
  fun_induction rendering.write out fragments with
  | case1 => rw [write]
  | case2 out text fragments ih => rw [write, String.append_assoc, ih]
  | case3 out f fragments ih => rw [write, ih]

private theorem write_append (out : String) (first second : List Fragment) :
    rendering.write out (first ++ second) = rendering.write (rendering.write out first) second := by
  fun_induction rendering.write out first with
  | case1 => rfl
  | case2 out text fragments ih => rw [List.cons_append, write, ih]
  | case3 out f fragments ih => rw [List.cons_append, write, ← List.append_assoc, ih]

private theorem write_filter (out : String) (f : Filter) (fragments : List Fragment) :
    rendering.write out (.filter f :: fragments) =
      rendering.write (out ++ f.render rendering) fragments := by
  have hAppend := append_write rendering out "" [.filter f]
  rw [String.append_empty] at hAppend
  calc rendering.write out (.filter f :: fragments)
      = rendering.write (rendering.write out [.filter f]) fragments :=
        write_append rendering out [.filter f] fragments
    _ = rendering.write (out ++ f.render rendering) fragments := by
      rw [hAppend, Filter.render]

private theorem toList_write (out : String) (fragments : List Fragment) :
    (rendering.write out fragments).toList = out.toList ++ rendering.fragmentsText fragments := by
  induction fragments generalizing out with
  | nil =>
    rw [write]
    exact (List.append_nil _).symm
  | cons fragment fragments ih =>
    cases fragment with
    | text text =>
      rw [write, ih, String.toList_append, List.append_assoc]
      rfl
    | filter f =>
      rw [write_filter, ih, String.toList_append, List.append_assoc]
      rfl

/-- The text of a filter consists of the texts of its fragments. -/
theorem toList_render (f : Filter) :
    (f.render rendering).toList = rendering.fragmentsText (rendering.fragments f) := by
  rw [Filter.render, write, List.append_nil, toList_write]
  rfl

end Rendering

end RowFilter
