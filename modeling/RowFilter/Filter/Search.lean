import RowFilter.Filter.Basic

/-!
Walks over the nodes of a filter.

A chain of connectives is a tree as deep as the chain is long, so each walk keeps a list of pending
filters instead of recursing into the tree.
-/

namespace RowFilter.Filter

/-- The nodes of a filter, each before those below it, left before right. -/
def preorder : Filter → List Filter
  | condition c span => [condition c span]
  | and left right span => and left right span :: (left.preorder ++ right.preorder)
  | or left right span => or left right span :: (left.preorder ++ right.preorder)
  | not operand span => not operand span :: operand.preorder

/-- A filter has a node. -/
theorem size_pos (filter : Filter) : 0 < filter.size := by
  cases filter <;> simp only [size] <;> omega

/-- Leaving out a filter leaves fewer nodes. -/
theorem totalSize_lt_cons (node : Filter) (pending : List Filter) :
    totalSize pending < totalSize (node :: pending) := by
  have hPos := size_pos node
  simp only [totalSize]
  omega

/-- Replacing a node by its children leaves fewer nodes. -/
theorem totalSize_children_append (node : Filter) (pending : List Filter) :
    totalSize (node.children ++ pending) < totalSize (node :: pending) := by
  cases node <;> simp only [children, totalSize, size, List.cons_append, List.nil_append] <;> omega

/-- The first node that satisfies `p`, among the pending filters and all nodes below them. -/
def findPending (p : Filter → Bool) : List Filter → Option Filter
  | [] => none
  | node :: pending =>
    if p node then some node else findPending p (node.children ++ pending)
termination_by pending => totalSize pending
decreasing_by exact totalSize_children_append node pending

/-- The first node that satisfies `p`, in the order of `preorder`. -/
def find? (p : Filter → Bool) (filter : Filter) : Option Filter :=
  findPending p [filter]

/-- The two operands of a connective, if it is the given one. -/
def split? : Connective → Filter → Option (Filter × Filter)
  | .and, and left right _ => some (left, right)
  | .or, or left right _ => some (left, right)
  | _, _ => none

/-- Replacing a node by its operands leaves fewer nodes. -/
theorem totalSize_of_split? {connective : Connective} {node left right : Filter}
    (h : split? connective node = some (left, right)) (pending : List Filter) :
    totalSize (left :: right :: pending) < totalSize (node :: pending) := by
  cases connective <;> cases node <;>
    simp only [split?, Option.some.injEq, Prod.mk.injEq, reduceCtorEq] at h
  all_goals
    obtain ⟨rfl, rfl⟩ := h
    simp only [totalSize, size]
    omega

/-- Appends to the reversed list `found` the operands of the pending chains of one connective. -/
def collectOperands (connective : Connective) (found : List Filter) : List Filter → List Filter
  | [] => found.reverse
  | node :: pending =>
    match _h : split? connective node with
    | some (left, right) => collectOperands connective found (left :: right :: pending)
    | none => collectOperands connective (node :: found) pending
termination_by pending => totalSize pending
decreasing_by
  · exact totalSize_of_split? _h pending
  · exact totalSize_lt_cons node pending

/-- The operands of a chain of one connective, however it is nested, left to right. -/
def operands (connective : Connective) (filter : Filter) : List Filter :=
  collectOperands connective [] [filter]

end RowFilter.Filter
