import RowFilter.Filter.Basic

/-!
Ways to write filters as text.

A rendering says of what text and what smaller filters the text of a filter consists. A chain of
connectives is a tree as deep as the chain is long, so what follows a filter waits in a list while
the filter is written.
-/

namespace RowFilter

/-- A piece of a text that is still to be written. -/
inductive Fragment where
  | text (text : String)
  | filter (filter : Filter)

/-- The number of nodes of the filters among some fragments. -/
def Fragment.totalSize : List Fragment → Nat
  | [] => 0
  | .text _ :: fragments => totalSize fragments
  | .filter f :: fragments => f.size + totalSize fragments

/-- The nodes of two lists of fragments are counted apart. -/
theorem Fragment.totalSize_append (first second : List Fragment) :
    totalSize (first ++ second) = totalSize first + totalSize second := by
  induction first with
  | nil => exact (Nat.zero_add _).symm
  | cons fragment first ih =>
    cases fragment with
    | text => exact ih
    | filter f =>
      simp only [List.cons_append, totalSize, ih]
      omega

/-- A way to write filters. -/
structure Rendering where
  /-- What the text of a filter consists of, left to right. -/
  fragments : Filter → List Fragment
  /-- The filters within a filter's text have fewer nodes than the filter. -/
  totalSize_fragments (f : Filter) : Fragment.totalSize (fragments f) < f.size

/-- Appends the text of some fragments. -/
def Rendering.write (rendering : Rendering) (out : String) : List Fragment → String
  | [] => out
  | .text text :: fragments => rendering.write (out ++ text) fragments
  | .filter f :: fragments => rendering.write out (rendering.fragments f ++ fragments)
termination_by fragments => (Fragment.totalSize fragments, fragments.length)
decreasing_by
  · exact Prod.Lex.right _ (Nat.lt_succ_self _)
  · apply Prod.Lex.left
    rw [Fragment.totalSize_append]
    exact Nat.add_lt_add_right (rendering.totalSize_fragments f) _

/-- The text of a filter. -/
def Filter.render (rendering : Rendering) (filter : Filter) : String :=
  rendering.write "" [.filter filter]

end RowFilter
