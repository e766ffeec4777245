import RowFilter.Filter.Search

/-! The walks over a filter as recursions on its structure. A walk handles
the pending filters one behind the other, as if each were walked alone. -/

namespace RowFilter.Filter

/-- The preorder begins with the node itself and goes on with what is below it. -/
theorem preorder_eq_cons (node : Filter) :
    node.preorder = node :: node.children.flatMap preorder := by
  cases node <;> simp [preorder, children]

/-- The nodes of pending filters are searched in preorder. -/
theorem findPending_eq (p : Filter → Bool) (pending : List Filter) :
    findPending p pending = (pending.flatMap preorder).find? p := by
  fun_induction findPending p pending with
  | case1 => rfl
  | case2 node pending h =>
    rw [List.flatMap_cons, preorder_eq_cons, List.cons_append, List.find?_cons_of_pos h]
  | case3 node pending h ih =>
    rw [ih, List.flatMap_cons, preorder_eq_cons, List.cons_append, List.find?_cons_of_neg h,
      List.flatMap_append]

/-- A search finds the first node in preorder. -/
theorem find?_eq (p : Filter → Bool) (filter : Filter) : filter.find? p = filter.preorder.find? p := by
  rw [find?, findPending_eq, List.flatMap_singleton]

/-- The operands of a chain, by recursion on the chain. -/
def chainOperands (connective : Connective) : Filter → List Filter
  | and left right span =>
    if connective = .and then left.chainOperands connective ++ right.chainOperands connective
    else [and left right span]
  | or left right span =>
    if connective = .or then left.chainOperands connective ++ right.chainOperands connective
    else [or left right span]
  | filter => [filter]

private theorem chainOperands_of_split?_eq_some {connective : Connective} {node left right : Filter}
    (h : split? connective node = some (left, right)) :
    node.chainOperands connective =
      left.chainOperands connective ++ right.chainOperands connective := by
  cases connective <;> cases node <;>
    simp only [split?, Option.some.injEq, Prod.mk.injEq, reduceCtorEq] at h
  all_goals
    obtain ⟨rfl, rfl⟩ := h
    rw [chainOperands, if_pos rfl]

private theorem chainOperands_of_split?_eq_none {connective : Connective} {node : Filter}
    (h : split? connective node = none) : node.chainOperands connective = [node] := by
  cases connective <;> cases node <;>
    first
    | rfl
    | cases h

private theorem collectOperands_eq (connective : Connective) (found pending : List Filter) :
    collectOperands connective found pending =
      found.reverse ++ pending.flatMap (chainOperands connective) := by
  fun_induction collectOperands connective found pending with
  | case1 found => rw [List.flatMap_nil, List.append_nil]
  | case2 found node pending left right h ih =>
    rw [ih, List.flatMap_cons, List.flatMap_cons, List.flatMap_cons,
      chainOperands_of_split?_eq_some h, List.append_assoc]
  | case3 found node pending h ih =>
    rw [ih, List.flatMap_cons, chainOperands_of_split?_eq_none h, List.reverse_cons,
      List.append_assoc]

/-- The operands of a chain are those found by recursion on the chain. -/
theorem operands_eq (connective : Connective) (filter : Filter) :
    filter.operands connective = filter.chainOperands connective := by
  rw [operands, collectOperands_eq, List.reverse_nil, List.nil_append, List.flatMap_singleton]

end RowFilter.Filter
