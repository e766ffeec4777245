import RowFilter.Compile
import RowFilter.Proofs.Filter.Association
import RowFilter.Proofs.Filter.Search
import RowFilter.Pushdown.Conversion

/-! Disjunctive normal forms mean what their filters mean. The conversion is
compared with a recursion on the filter that puts the triples of the operands
of each connective one behind the other. -/

namespace RowFilter

open Pushdown

namespace Pushdown

/-- The truth value of a conjunction of triples, the first of which has the given number. -/
def conjunctionAt (v : Assignment) (first : Nat) : List Triple → Truth
  | [] => .true
  | _ :: triples => (v first).and (conjunctionAt v (first + 1) triples)

/-- The truth value of a disjunction of groups, the first triple of which has the given number. -/
def disjunctionAt (v : Assignment) (first : Nat) : List (List Triple) → Truth
  | [] => .false
  | group :: groups =>
    (conjunctionAt v first group).or (disjunctionAt v (first + group.length) groups)

/-- The truth value of a disjunctive normal form, its triples numbered from left to right. -/
def Dnf.eval (v : Assignment) (dnf : Dnf) : Truth :=
  disjunctionAt v 0 dnf.groups

/-- Two conjunctions one behind the other are their conjunction. -/
theorem conjunctionAt_append (v : Assignment) (first : Nat) (triples others : List Triple) :
    conjunctionAt v first (triples ++ others) =
      (conjunctionAt v first triples).and (conjunctionAt v (first + triples.length) others) := by
  induction triples generalizing first with
  | nil => rw [List.nil_append, conjunctionAt, Truth.true_and, List.length_nil, Nat.add_zero]
  | cons triple triples ih =>
    rw [List.cons_append, conjunctionAt, conjunctionAt, ih, Truth.and_assoc, List.length_cons,
      Nat.add_assoc, Nat.add_comm 1]

/-- Two disjunctions one behind the other are their disjunction. -/
theorem disjunctionAt_append (v : Assignment) (first : Nat) (groups others : List (List Triple)) :
    disjunctionAt v first (groups ++ others) =
      (disjunctionAt v first groups).or
        (disjunctionAt v (first + groups.flatten.length) others) := by
  induction groups generalizing first with
  | nil => rw [List.nil_append, disjunctionAt, Truth.false_or, List.flatten_nil, List.length_nil,
      Nat.add_zero]
  | cons group groups ih =>
    rw [List.cons_append, disjunctionAt, disjunctionAt, ih, Truth.or_assoc, List.flatten_cons,
      List.length_append, Nat.add_assoc]

/-- What collecting the results of a step succeeds with. -/
theorem collect_eq_ok {α β ε : Type} {step : α → Except ε β} {done results : List β}
    {items : List α} :
    collect step done items = .ok results ↔
      ∃ others, results = done.reverse ++ others ∧ items.map step = others.map .ok := by
  induction items generalizing done with
  | nil =>
    rw [collect, Except.ok.injEq]
    constructor
    · rintro rfl
      exact ⟨[], (List.append_nil _).symm, rfl⟩
    · rintro ⟨others, rfl, hOthers⟩
      rw [List.map_eq_nil_iff.1 hOthers.symm, List.append_nil]
  | cons item items ih =>
    rw [collect, List.map_cons]
    cases hStep : step item with
    | error fault =>
      refine ⟨nofun, ?_⟩
      rintro ⟨others, -, hOthers⟩
      cases others <;> cases hOthers
    | ok result =>
      refine ih.trans ⟨?_, ?_⟩
      · rintro ⟨others, rfl, hOthers⟩
        refine ⟨result :: others, by simp, ?_⟩
        rw [hOthers, List.map_cons]
      · rintro ⟨others, rfl, hOthers⟩
        cases others with
        | nil => cases hOthers
        | cons first others =>
          obtain ⟨hFirst, hItems⟩ := List.cons.inj hOthers
          cases hFirst
          exact ⟨others, by simp, hItems⟩

private theorem singleton_eq_map_ok {β ε : Type} {result : Except ε β} {results : List β} :
    [result] = results.map .ok ↔ ∃ value, results = [value] ∧ result = .ok value := by
  constructor
  · intro h
    obtain ⟨value, rfl, hValue⟩ := List.map_eq_singleton_iff.1 h.symm
    exact ⟨value, rfl, hValue.symm⟩
  · rintro ⟨value, rfl, rfl⟩
    rfl

end Pushdown

def appendBoth {α : Type} : Option (List α) → Option (List α) → Option (List α)
  | some first, some second => some (first ++ second)
  | _, _ => none

private theorem appendBoth_assoc {α : Type} (a b c : Option (List α)) :
    appendBoth (appendBoth a b) c = appendBoth a (appendBoth b c) := by
  cases a <;> cases b <;> cases c <;> simp [appendBoth]

theorem appendBoth_eq_some {α : Type} {a b : Option (List α)} {both : List α} :
    appendBoth a b = some both ↔
      ∃ first second, a = some first ∧ b = some second ∧ both = first ++ second := by
  cases a <;> cases b <;> simp [appendBoth, eq_comm]

theorem appendBoth_eq_none {α : Type} {a b : Option (List α)} :
    appendBoth a b = none ↔ a = none ∨ b = none := by
  cases a <;> cases b <;> simp [appendBoth]

/-- Two lists of results succeed if each of them does. -/
theorem append_eq_map_ok {α ε : Type} {results others : List (Except ε α)}
    {first second : Option (List α)} {both : List α}
    (hFirst : ∀ values, results = values.map .ok ↔ first = some values)
    (hSecond : ∀ values, others = values.map .ok ↔ second = some values) :
    results ++ others = both.map .ok ↔ appendBoth first second = some both := by
  rw [appendBoth_eq_some]
  constructor
  · intro h
    obtain ⟨ahead, behind, rfl, hAhead, hBehind⟩ := List.map_eq_append_iff.1 h.symm
    exact ⟨ahead, behind, (hFirst ahead).1 hAhead.symm, (hSecond behind).1 hBehind.symm, rfl⟩
  · rintro ⟨ahead, behind, hAhead, hBehind, rfl⟩
    rw [(hFirst ahead).2 hAhead, (hSecond behind).2 hBehind, List.map_append]

namespace Filter

def conjunctionTriples? : Filter → Option (List Triple)
  | condition c _ => (Triple.ofCondition? c).map ([·])
  | and left right _ => appendBoth left.conjunctionTriples? right.conjunctionTriples?
  | _ => none

def groups? : Filter → Option (List (List Triple))
  | or left right _ => appendBoth left.groups? right.groups?
  | filter => filter.conjunctionTriples?.map ([·])

section Groups

variable {filter : Filter} {triples : List Triple} {groups : List (List Triple)}

private theorem map_tripleOf_eq (blamed filter : Filter) (triples : List Triple) :
    (filter.chainOperands .and).map (tripleOf blamed) = triples.map .ok ↔
      filter.conjunctionTriples? = some triples := by
  induction filter generalizing triples with
  | condition c span =>
    change [tripleOf blamed (.condition c span)] = triples.map .ok ↔ _
    rw [conjunctionTriples?, singleton_eq_map_ok, tripleOf]
    cases Triple.ofCondition? c <;> simp [eq_comm]
  | and left right span ihLeft ihRight =>
    rw [chainOperands, if_pos rfl, List.map_append, conjunctionTriples?]
    exact append_eq_map_ok ihLeft ihRight
  | or left right span | not operand span =>
    constructor
    · intro h
      cases triples <;> cases h
    · intro h
      cases h

private theorem groupOf_eq_ok : groupOf filter = .ok triples ↔
    filter.conjunctionTriples? = some triples := by
  rw [groupOf, operands_eq, collect_eq_ok]
  simp only [List.reverse_nil, List.nil_append, exists_eq_left', map_tripleOf_eq]

private theorem map_groupOf_eq (filter : Filter) (groups : List (List Triple)) :
    (filter.chainOperands .or).map groupOf = groups.map .ok ↔ filter.groups? = some groups := by
  induction filter generalizing groups with
  | or left right span ihLeft ihRight =>
    rw [chainOperands, if_pos rfl, List.map_append, groups?]
    exact append_eq_map_ok ihLeft ihRight
  | condition | and | not =>
    change [groupOf _] = groups.map .ok ↔ _
    rw [singleton_eq_map_ok, groups?, Option.map_eq_some_iff]
    · simp only [groupOf_eq_ok]
      exact exists_congr fun _ => ⟨fun h => ⟨h.2, h.1.symm⟩, fun h => ⟨h.2.symm, h.1⟩⟩
    · intro _ _ _ h
      cases h

private theorem not_isNegation_of_conjunction (hTriples : filter.conjunctionTriples? ≠ none) :
    ∀ node ∈ filter.preorder, node.isNegation = false := by
  induction filter with
  | condition c span => simp [preorder, isNegation]
  | and left right span ihLeft ihRight =>
    rw [conjunctionTriples?, ne_eq, appendBoth_eq_none, not_or] at hTriples
    simp only [preorder, List.forall_mem_cons, List.forall_mem_append]
    exact ⟨rfl, ihLeft hTriples.1, ihRight hTriples.2⟩
  | or | not => exact absurd rfl hTriples

private theorem not_isNegation (h : filter.groups? = some groups) :
    ∀ node ∈ filter.preorder, node.isNegation = false := by
  induction filter generalizing groups with
  | or left right span ihLeft ihRight =>
    rw [groups?] at h
    obtain ⟨first, second, hFirst, hSecond, -⟩ := appendBoth_eq_some.1 h
    simp only [preorder, List.forall_mem_cons, List.forall_mem_append]
    exact ⟨rfl, ihLeft hFirst, ihRight hSecond⟩
  | condition | and | not =>
    obtain ⟨triples, hTriples, -⟩ := Option.map_eq_some_iff.1 h
    exact not_isNegation_of_conjunction (by simp [hTriples])

/-- The conversion succeeds with the groups of a filter, if it has any. -/
theorem toDnf_eq_ok {dnf : Dnf} : filter.toDnf = .ok dnf ↔ filter.groups? = some dnf.groups := by
  have hCollect : collect groupOf [] (filter.operands .or) = .ok dnf.groups ↔
      filter.groups? = some dnf.groups := by
    rw [operands_eq, collect_eq_ok]
    simp only [List.reverse_nil, List.nil_append, exists_eq_left', map_groupOf_eq]
  rw [toDnf, find?_eq]
  constructor
  · intro h
    split at h
    · cases h
    · cases hGroups : collect groupOf [] (filter.operands .or) with
      | error fault =>
        rw [hGroups] at h
        cases h
      | ok groups =>
        rw [hGroups] at h
        cases h
        exact hCollect.1 hGroups
  · intro h
    have hNone : filter.preorder.find? isNegation = none :=
      List.find?_eq_none.2 fun node hNode => by simp [not_isNegation h node hNode]
    rw [hNone, hCollect.2 h]
    rfl

end Groups

section Meaning

variable {filter : Filter}

/-- The triples of a conjunction stand for its conditions and mean the same. -/
theorem conjunctionTriples?_spec {triples : List Triple}
    (h : filter.conjunctionTriples? = some triples) :
    triples ≠ [] ∧ triples.map some = filter.conditions.map Triple.ofCondition? ∧
      ∀ v first, conjunctionAt v first triples = filter.evalAt v first := by
  induction filter generalizing triples with
  | condition c span =>
    obtain ⟨triple, hTriple, rfl⟩ := Option.map_eq_some_iff.1 h
    refine ⟨List.cons_ne_nil _ _, ?_, fun v first => ?_⟩
    · rw [conditions, List.map_singleton, List.map_singleton, hTriple]
    · rw [conjunctionAt, conjunctionAt, Truth.and_true, evalAt]
  | and left right span ihLeft ihRight =>
    rw [conjunctionTriples?] at h
    obtain ⟨ahead, behind, hLeft, hRight, rfl⟩ := appendBoth_eq_some.1 h
    obtain ⟨hAhead, hAheadMap, hAheadEval⟩ := ihLeft hLeft
    obtain ⟨-, hBehindMap, hBehindEval⟩ := ihRight hRight
    have hLength := congrArg List.length hAheadMap
    rw [List.length_map, List.length_map] at hLength
    refine ⟨List.append_ne_nil_of_left_ne_nil hAhead _, ?_, fun v first => ?_⟩
    · rw [List.map_append, hAheadMap, hBehindMap, conditions, List.map_append]
    · rw [conjunctionAt_append, hAheadEval, hBehindEval, hLength, evalAt]
  | or | not => cases h

/-- The groups of a filter stand for its conditions and mean the same. -/
theorem groups?_spec {groups : List (List Triple)} (h : filter.groups? = some groups) :
    groups ≠ [] ∧ (∀ group ∈ groups, group ≠ []) ∧
      groups.flatten.map some = filter.conditions.map Triple.ofCondition? ∧
      ∀ v first, disjunctionAt v first groups = filter.evalAt v first := by
  induction filter generalizing groups with
  | or left right span ihLeft ihRight =>
    rw [groups?] at h
    obtain ⟨ahead, behind, hLeft, hRight, rfl⟩ := appendBoth_eq_some.1 h
    obtain ⟨hAhead, hAheadGroups, hAheadMap, hAheadEval⟩ := ihLeft hLeft
    obtain ⟨-, hBehindGroups, hBehindMap, hBehindEval⟩ := ihRight hRight
    have hLength := congrArg List.length hAheadMap
    rw [List.length_map, List.length_map] at hLength
    refine ⟨List.append_ne_nil_of_left_ne_nil hAhead _,
      List.forall_mem_append.2 ⟨hAheadGroups, hBehindGroups⟩, ?_, fun v first => ?_⟩
    · rw [List.flatten_append, List.map_append, hAheadMap, hBehindMap, conditions, List.map_append]
    · rw [disjunctionAt_append, hAheadEval, hBehindEval, hLength, evalAt]
  | condition | and | not =>
    obtain ⟨triples, hTriples, rfl⟩ := Option.map_eq_some_iff.1 h
    obtain ⟨hNonempty, hMap, hEval⟩ := conjunctionTriples?_spec hTriples
    refine ⟨List.cons_ne_nil _ _, List.forall_mem_singleton.2 hNonempty, ?_, fun v first => ?_⟩
    · rwa [List.flatten_singleton]
    · rw [disjunctionAt, disjunctionAt, Truth.or_false, hEval]

end Meaning

/-- The association of chains does not show in the triples. -/
theorem Reassociates.triples_eq {filter other : Filter} (h : Reassociates filter other) :
    filter.conjunctionTriples? = other.conjunctionTriples? ∧ filter.groups? = other.groups? := by
  induction h with
  | refl => exact ⟨rfl, rfl⟩
  | symm _ ih => exact ⟨ih.1.symm, ih.2.symm⟩
  | trans _ _ ih ihNext => exact ⟨ih.1.trans ihNext.1, ih.2.trans ihNext.2⟩
  | assoc connective first second third a b c d =>
    cases connective with
    | and =>
      have hTriples := appendBoth_assoc first.conjunctionTriples? second.conjunctionTriples?
        third.conjunctionTriples?
      exact ⟨hTriples, congrArg (Option.map ([·])) hTriples⟩
    | or => exact ⟨rfl, appendBoth_assoc first.groups? second.groups? third.groups?⟩
  | join connective a b _ _ ihLeft ihRight =>
    cases connective with
    | and =>
      have hTriples := congr (congrArg appendBoth ihLeft.1) ihRight.1
      exact ⟨hTriples, congrArg (Option.map ([·])) hTriples⟩
    | or =>
      have hGroups := congr (congrArg appendBoth ihLeft.2) ihRight.2
      exact ⟨rfl, hGroups⟩
  | not => exact ⟨rfl, rfl⟩

/-- A disjunctive normal form has groups and none of them is empty. Its
triples are those of the conditions of the filter, in their order, and under
every assignment it has the truth value of the filter. Filters that differ in
the association of chains only have the same form. -/
theorem toDnf_spec {filter : Filter} {dnf : Dnf} (h : filter.toDnf = .ok dnf) :
    (dnf.groups ≠ [] ∧ ∀ group ∈ dnf.groups, group ≠ []) ∧
      dnf.groups.flatten.map some = filter.conditions.map Triple.ofCondition? ∧
      (∀ v, dnf.eval v = filter.eval v) ∧
      ∀ other, Reassociates filter other → other.toDnf = .ok dnf := by
  obtain ⟨hNonempty, hGroups, hMap, hEval⟩ := groups?_spec (toDnf_eq_ok.1 h)
  refine ⟨⟨hNonempty, hGroups⟩, hMap, fun v => hEval v 0, fun other hOther => ?_⟩
  rw [toDnf_eq_ok, ← hOther.triples_eq.2]
  exact toDnf_eq_ok.1 h

/-- A disjunction of a conjunction and a condition. -/
theorem toDnf_spec_mixed :
    let a := Condition.nullCheck ⟨"a", .none⟩ false
    let b := Condition.comparison ⟨"b", .none⟩ .less (.literal (.integer 3))
    let c := Condition.nullCheck ⟨"c", .none⟩ true
    let filter := or (and (condition a .none) (condition b .none) .none) (condition c .none) .none
    let dnf : Dnf := ⟨[[⟨"a", .compare .equal, .null⟩, ⟨"b", .compare .less, .literal (.integer 3)⟩],
      [⟨"c", .compare .notEqual, .null⟩]]⟩
    filter.toDnf = .ok dnf ∧ dnf.groups ≠ [] ∧ ∀ v, dnf.eval v = filter.eval v := by
  intro a b c filter dnf
  have hDnf : filter.toDnf = .ok dnf := toDnf_eq_ok.2 rfl
  obtain ⟨⟨hNonempty, -⟩, -, hEval, -⟩ := toDnf_spec hDnf
  exact ⟨hDnf, hNonempty, hEval⟩

end Filter

/-- The form of a single condition is its triple. -/
theorem Compile.dnf_condition {source : String} {condition : Condition} {span : Span}
    {triple : Triple} (h : Filter.parse source = .ok (.condition condition span))
    (hTriple : Triple.ofCondition? condition = some triple) :
    Compile.dnf source = .ok ⟨[[triple]]⟩ := by
  have hDnf : (Filter.condition condition span).toDnf = .ok ⟨[[triple]]⟩ := by
    simp [Filter.toDnf_eq_ok, Filter.groups?, Filter.conjunctionTriples?, hTriple]
  rw [Compile.dnf, h]
  simp only [hDnf]

end RowFilter
