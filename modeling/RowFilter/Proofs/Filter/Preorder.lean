import Mathlib.Computability.StateTransition
import RowFilter.Proofs.Filter.Search

/-! The search for a node, round by round. In each round the first pending node
is tested, and its children take its place. What is passed and what is pending,
with all that stands below it, is the preorder of the filter all the time, so
the search ends at the first node in preorder that it looks for. -/

namespace RowFilter

open StateTransition

/-- A run keeps what each of its rounds keeps. -/
theorem eq_of_reaches {State Kept : Type} {next? : State → Option State} (kept : State → Kept)
    (hRound : ∀ state later, next? state = some later → kept later = kept state)
    {state later : State} (h : Reaches next? state later) : kept later = kept state := by
  induction h with
  | refl => rfl
  | tail _ hNext ih => exact (hRound _ _ hNext).trans ih

namespace Filter

/-- Whether a node is the filter itself or stands somewhere below it. -/
def HasNode (filter node : Filter) : Prop :=
  Relation.ReflTransGen (fun above below => below ∈ above.children) filter node

/-- The preorder lists the nodes of a filter. -/
theorem mem_preorder_iff {filter node : Filter} : node ∈ filter.preorder ↔ filter.HasNode node := by
  constructor
  · intro h
    induction filter with
    | condition c span =>
      rw [List.mem_singleton.1 h]
      exact .refl
    | and left right span ihLeft ihRight | or left right span ihLeft ihRight =>
      rcases List.mem_cons.1 h with rfl | h
      · exact .refl
      rcases List.mem_append.1 h with h | h
      · exact .head List.mem_cons_self (ihLeft h)
      · exact .head (List.mem_cons_of_mem _ List.mem_cons_self) (ihRight h)
    | not operand span ih =>
      rcases List.mem_cons.1 h with rfl | h
      · exact .refl
      · exact .head List.mem_cons_self (ih h)
  · intro h
    induction h using Relation.ReflTransGen.head_induction_on with
    | refl =>
      rw [preorder_eq_cons]
      exact List.mem_cons_self
    | head hChild _ ih =>
      rw [preorder_eq_cons]
      exact List.mem_cons_of_mem _ (List.mem_flatMap.2 ⟨_, hChild, ih⟩)

/-- The preorder lists each node once. -/
theorem length_preorder (filter : Filter) : filter.preorder.length = filter.size := by
  induction filter with
  | condition => rfl
  | and _ _ _ ihLeft ihRight | or _ _ _ ihLeft ihRight =>
    rw [preorder, List.length_cons, List.length_append, ihLeft, ihRight, size]
  | not _ _ ih => rw [preorder, List.length_cons, ih, size]

end Filter

/-- A search under way: the nodes it has passed, in order, and those that are pending. -/
structure Search where
  passed : List Filter
  pending : List Filter

namespace Search

def start (filter : Filter) : Search := ⟨[], [filter]⟩

/-- What is left of a search after one more round, unless it ends: it ends at a node that
satisfies `p`, and if nothing is pending. -/
def next? (p : Filter → Bool) : Search → Option Search
  | ⟨_, []⟩ => none
  | ⟨passed, node :: pending⟩ =>
    if p node then none else some ⟨passed ++ [node], node.children ++ pending⟩

/-- The nodes that a search has tested once it has ended: those that it has passed, and the one
at which it ends, if there is one. -/
def tested (search : Search) : List Filter := search.passed ++ search.pending.head?.toList

variable {p : Filter → Bool} {search later : Search}

/-- A round passes a node that is not looked for. -/
theorem next?_eq_some (h : search.next? p = some later) :
    ∃ passed node pending, p node = false ∧ search = ⟨passed, node :: pending⟩ ∧
      later = ⟨passed ++ [node], node.children ++ pending⟩ := by
  obtain ⟨passed, _ | ⟨node, pending⟩⟩ := search
  · cases h
  · rw [next?] at h
    split at h
    · cases h
    · next hNode =>
      exact ⟨passed, node, pending, Bool.eq_false_iff.2 hNode, rfl, (Option.some.inj h).symm⟩

/-- The nodes of a filter as its search sees them: those passed, and those pending with all that
stands below them. -/
def nodes (search : Search) : List Filter :=
  search.passed ++ search.pending.flatMap Filter.preorder

/-- A round passes the next node in preorder. -/
theorem nodes_of_next? (h : search.next? p = some later) : later.nodes = search.nodes := by
  obtain ⟨passed, node, pending, -, rfl, rfl⟩ := next?_eq_some h
  rw [nodes, nodes, List.flatMap_append, List.append_assoc, List.flatMap_cons,
    Filter.preorder_eq_cons]
  rfl

/-- A search neither loses nor adds a node. -/
theorem nodes_of_reaches (h : Reaches (next? p) search later) : later.nodes = search.nodes :=
  eq_of_reaches nodes (fun _ _ => nodes_of_next?) h

/-- A round is one recursion of the walk over the pending filters. -/
theorem findPending_of_next? (h : search.next? p = some later) :
    Filter.findPending p later.pending = Filter.findPending p search.pending := by
  obtain ⟨passed, node, pending, hNode, rfl, rfl⟩ := next?_eq_some h
  conv_rhs => rw [Filter.findPending, if_neg (by simp [hNode])]

/-- A search has the same result from each of its rounds on. -/
theorem findPending_of_reaches (h : Reaches (next? p) search later) :
    Filter.findPending p later.pending = Filter.findPending p search.pending :=
  eq_of_reaches (Filter.findPending p ·.pending) (fun _ _ => findPending_of_next?) h

/-- The node at which a search ends is its answer. -/
theorem findPending_of_next?_eq_none (h : search.next? p = none) :
    Filter.findPending p search.pending = search.pending.head? := by
  obtain ⟨passed, _ | ⟨node, pending⟩⟩ := search
  · rw [Filter.findPending]
    rfl
  · rw [next?] at h
    split at h
    · next hNode =>
      rw [Filter.findPending, if_pos hNode]
      rfl
    · cases h

/-- Every search comes to an end. -/
theorem exists_mem_eval (p : Filter → Bool) (search : Search) :
    ∃ last, last ∈ eval (next? p) search := by
  obtain ⟨passed, pending⟩ := search
  fun_induction Filter.findPending p pending generalizing passed with
  | case1 => exact ⟨_, mem_eval.2 ⟨.refl, rfl⟩⟩
  | case2 node pending hNode => exact ⟨_, mem_eval.2 ⟨.refl, if_pos hNode⟩⟩
  | case3 node pending hNode ih =>
    obtain ⟨last, hLast⟩ := ih (passed ++ [node])
    obtain ⟨hRun, hEnd⟩ := mem_eval.1 hLast
    exact ⟨last, mem_eval.2 ⟨.head (if_neg hNode) hRun, hEnd⟩⟩

/-- The tested nodes are the first ones among the nodes of a search. -/
theorem tested_isPrefix (search : Search) : search.tested <+: search.nodes := by
  obtain ⟨passed, _ | ⟨node, pending⟩⟩ := search
  · exact List.prefix_refl _
  · rw [tested, nodes, List.flatMap_cons, Filter.preorder_eq_cons]
    exact (List.prefix_append_right_inj passed).2 ⟨_, rfl⟩

end Search

/-- A filter is searched in preorder: the answer is the first node, from the root on and left before
right, that satisfies `p`, and there is none only if no node at all satisfies it. The search comes
to an end, and the nodes it has tested by then are the first ones in preorder, each once. -/
theorem Filter.find?_preorder (p : Filter → Bool) (filter : Filter) :
    (∀ node, filter.find? p = some node ↔ p node = true ∧ ∃ earlier later,
        filter.preorder = earlier ++ node :: later ∧ ∀ other ∈ earlier, p other = false) ∧
      (filter.find? p = none ↔ ∀ node, filter.HasNode node → p node = false) ∧
      ∃ last ∈ StateTransition.eval (Search.next? p) (.start filter),
        last.pending.head? = filter.find? p ∧ last.tested <+: filter.preorder ∧
          last.tested.length ≤ filter.size := by
  refine ⟨fun node => ?_, ?_, ?_⟩
  · rw [find?_eq, List.find?_eq_some_iff_append]
    simp only [Bool.not_eq_true']
  · rw [find?_eq, List.find?_eq_none]
    simp only [mem_preorder_iff, Bool.not_eq_true]
  · obtain ⟨last, hLast⟩ := Search.exists_mem_eval p (.start filter)
    obtain ⟨hRun, hEnd⟩ := mem_eval.1 hLast
    have hNodes : last.nodes = filter.preorder :=
      (Search.nodes_of_reaches hRun).trans (List.flatMap_singleton ..)
    have hTested : last.tested <+: filter.preorder := hNodes ▸ last.tested_isPrefix
    refine ⟨last, hLast, ?_, hTested, filter.length_preorder ▸ hTested.length_le⟩
    rw [← Search.findPending_of_next?_eq_none hEnd, Search.findPending_of_reaches hRun]
    rfl

end RowFilter
