import Mathlib.Data.List.Forall2
import RowFilter.Proofs.Json.Text
import RowFilter.Proofs.Pushdown.Conversion
import RowFilter.Proofs.Pushdown.LiteralSet
import RowFilter.Proofs.Syntax.Parse

/-! The JSON text of a disjunctive normal form determines the form. Values are
written without their kinds, but their texts tell the kinds apart, and a set is
determined by the sequence of its members. -/

namespace RowFilter

namespace Literal

/-- Different literals have different JSON values. -/
theorem toJson_injective : Function.Injective toJson := by
  intro a b h
  cases a <;> cases b <;> simp only [toJson, Json.integer.injEq, Json.float.injEq,
    Json.string.injEq, reduceCtorEq, Int64.toInt_inj] at h <;> rw [h]

theorem IsRegular.isFinite_toJson {value : Literal} (h : value.IsRegular) :
    value.toJson.IsFinite := by
  cases value with
  | integer n => exact .integer _
  | float x => exact .float h
  | text s => exact .string _

/-- Different operators have different symbols. -/
theorem IsRegular.not_isNaN {value : Literal} (h : value.IsRegular) : value.isNaN = false := by
  cases value with
  | float x =>
    have hFinite : x.magnitude < Binary64.infinity := of_decide_eq_true h
    exact decide_eq_false (Nat.lt_asymm hFinite)
  | _ => rfl

end Literal

namespace Pushdown

/-- Literals that are the same, or sets of the same members. -/
inductive Value.IsSame : Value → Value → Prop where
  | literal (value : Literal) : IsSame (literal value) (literal value)
  | set {values others : LiteralSet} (h : values.members.Perm others.members) :
      IsSame (set values) (set others)

/-- Triples of one column and one operator with the same value. -/
structure Triple.IsSame (a b : Triple) : Prop where
  column_eq : a.column = b.column
  operator_eq : a.operator = b.operator
  value_isSame : a.value.IsSame b.value

/-- Forms with the same triples, each in the same place. -/
def Dnf.IsSame (a b : Dnf) : Prop :=
  List.Forall₂ (List.Forall₂ Triple.IsSame) a.groups b.groups

/-- Reading a symbol undoes writing it. -/
theorem Operator.ofSymbol?_symbol (operator : Operator) : ofSymbol? operator.symbol = operator := by
  rcases operator with comparison | _ | _
  · cases comparison <;> rfl
  · rfl
  · rfl

theorem Operator.symbol_injective : Function.Injective symbol := by
  intro a b h
  have hRead := congrArg ofSymbol? h
  rwa [ofSymbol?_symbol, ofSymbol?_symbol, Option.some.injEq] at hRead

section Values

variable {a b : Value}

/-- A set is written as an array and a literal is not, and the order in which the members of a set
are written depends on the members only. -/
theorem Value.toJson_eq_iff : a.toJson = b.toJson ↔ a.IsSame b := by
  constructor
  · intro h
    cases a with
    | literal value =>
      cases b with
      | literal other =>
        obtain rfl := Literal.toJson_injective h
        exact .literal value
      | set others => cases value <;> cases h
    | set values =>
      cases b with
      | literal other => cases other <;> cases h
      | set others =>
        have hSorted : values.sorted = others.sorted :=
          Literal.toJson_injective.list_map (Json.array.inj h)
        refine .set ((LiteralSet.sorted_perm values).symm.trans ?_)
        rw [hSorted]
        exact LiteralSet.sorted_perm others
  · rintro (_ | h)
    · rfl
    · rw [toJson, toJson, LiteralSet.sorted_eq_of_perm h]

/-- Values that texts spell: no literal is an infinity or no number. -/
def Value.IsRegular : Value → Prop
  | literal value => value.IsRegular
  | set values => ∀ member ∈ values.members, member.IsRegular

theorem Value.IsRegular.isFinite_toJson (h : a.IsRegular) : a.toJson.IsFinite := by
  cases a with
  | literal value => exact Literal.IsRegular.isFinite_toJson h
  | set values =>
    refine .array fun item hItem => ?_
    obtain ⟨member, hMember, rfl⟩ := List.mem_map.1 hItem
    exact (h member ((LiteralSet.sorted_perm values).mem_iff.1 hMember)).isFinite_toJson

/-- The same values are equal, since no literal is no number. -/
theorem Value.IsSame.equals (h : a.IsSame b) (hRegular : a.IsRegular) : a.equals b = true := by
  cases h with
  | literal value => exact Literal.equals_self (Literal.IsRegular.not_isNaN hRegular)
  | set hPerm =>
    rw [Value.equals, LiteralSet.equals, Bool.and_eq_true, decide_eq_true_eq, List.all_eq_true]
    exact ⟨hPerm.length_eq, fun member hMember => LiteralSet.contains_of_mem
      (hPerm.mem_iff.1 hMember) (Literal.equals_self (hRegular member hMember).not_isNaN)⟩

end Values

section Triples

variable {a b : Triple}

/-- Triples have the same JSON value exactly if they are the same. -/
theorem Triple.toJson_eq_iff : a.toJson = b.toJson ↔ a.IsSame b := by
  constructor
  · intro h
    simp only [toJson, Json.array.injEq, List.cons.injEq, Json.string.injEq, and_true] at h
    obtain ⟨hColumn, hOperator, hValue⟩ := h
    exact ⟨hColumn, Operator.symbol_injective hOperator, Value.toJson_eq_iff.1 hValue⟩
  · rintro ⟨hColumn, hOperator, hValue⟩
    rw [toJson, toJson, hColumn, hOperator, Value.toJson_eq_iff.2 hValue]

theorem Triple.isFinite_toJson (h : a.value.IsRegular) : a.toJson.IsFinite := by
  refine .array fun item hItem => ?_
  simp only [List.mem_cons, List.not_mem_nil, or_false] at hItem
  rcases hItem with rfl | rfl | rfl
  · exact .string _
  · exact .string _
  · exact h.isFinite_toJson

/-- Triples that are the same are equal, unless they hold what is not a number. -/
theorem Triple.IsSame.equals (h : a.IsSame b) (hRegular : a.value.IsRegular) :
    a.equals b = true := by
  simp [Triple.equals, h.column_eq, h.operator_eq, h.value_isSame.equals hRegular]

end Triples

section Forms

variable {a b : Dnf}

/-- Lists of the same results are made from lists that agree place by place. -/
theorem map_eq_map_iff_forall₂ {α β : Type} {f : α → β} {as bs : List α} :
    as.map f = bs.map f ↔ List.Forall₂ (fun a b => f a = f b) as bs := by
  rw [← List.forall₂_eq_eq_eq, List.forall₂_map_left_iff, List.forall₂_map_right_iff]

/-- Forms have the same JSON value exactly if they are the same. -/
theorem Dnf.toJson_eq_iff : a.toJson = b.toJson ↔ a.IsSame b := by
  simp only [toJson, Json.array.injEq, map_eq_map_iff_forall₂, Triple.toJson_eq_iff, IsSame]

def Dnf.IsRegular (dnf : Dnf) : Prop :=
  ∀ group ∈ dnf.groups, ∀ triple ∈ group, triple.value.IsRegular

theorem Dnf.IsRegular.isFinite_toJson (h : a.IsRegular) : a.toJson.IsFinite := by
  refine .array fun item hItem => ?_
  obtain ⟨group, hGroup, rfl⟩ := List.mem_map.1 hItem
  refine .array fun item hItem => ?_
  obtain ⟨triple, hTriple, rfl⟩ := List.mem_map.1 hItem
  exact Triple.isFinite_toJson (h group hGroup triple hTriple)

/-- Lists that agree place by place are equivalent. -/
theorem isEqv_of_forall₂ {α : Type} {r : α → α → Prop} {p : α → α → Bool} {as bs : List α}
    (h : List.Forall₂ r as bs) (hImp : ∀ a ∈ as, ∀ b, r a b → p a b = true) :
    as.isEqv bs p = true := by
  induction h with
  | nil => rfl
  | cons hHead _ ih =>
    rw [List.isEqv, Bool.and_eq_true]
    exact ⟨hImp _ List.mem_cons_self _ hHead,
      ih fun a ha => hImp a (List.mem_cons_of_mem _ ha)⟩

/-- Forms that are the same are equal, unless they hold what is not a number. -/
theorem Dnf.IsSame.equals (h : a.IsSame b) (hRegular : a.IsRegular) : a.equals b = true :=
  isEqv_of_forall₂ h fun group hGroup _ hSame =>
    isEqv_of_forall₂ hSame fun triple hTriple _ hSame =>
      hSame.equals (hRegular group hGroup triple hTriple)

end Forms

/-- The literals of a triple are those of its condition. -/
theorem Triple.isRegular_ofCondition? {condition : Condition} {triple : Triple}
    (h : ofCondition? condition = some triple) (hRegular : condition.IsRegular) :
    triple.value.IsRegular := by
  rcases condition with ⟨left, operator, _ | value⟩ | ⟨column, negated⟩ | ⟨column, negated, values⟩
  · cases h
  · cases h
    exact hRegular
  · cases h
    trivial
  · cases h
    exact fun member hMember => hRegular.2 member (LiteralSet.mem_of_mem_members hMember)

/-- The form of a regular filter is regular. -/
theorem Dnf.isRegular_of_toDnf {filter : Filter} {dnf : Dnf} (h : filter.toDnf = .ok dnf)
    (hRegular : filter.IsRegular) : dnf.IsRegular := by
  obtain ⟨-, -, hMap, -⟩ := Filter.groups?_spec (Filter.toDnf_eq_ok.1 h)
  intro group hGroup triple hTriple
  have hSome : some triple ∈ filter.conditions.map Triple.ofCondition? :=
    hMap ▸ List.mem_map_of_mem (List.mem_flatten.2 ⟨group, hGroup, hTriple⟩)
  obtain ⟨condition, hCondition, hOf⟩ := List.mem_map.1 hSome
  exact Triple.isRegular_ofCondition? hOf (hRegular.of_mem_conditions condition hCondition)

end Pushdown

namespace Compile

open Pushdown

/-- The forms of texts are regular. -/
theorem isRegular_of_dnf {source : String} {form : Dnf} (h : dnf source = .ok form) :
    form.IsRegular := by
  rw [dnf] at h
  split at h
  · cases h
  · next filter hParse =>
    split at h
    · cases h
    · next form hDnf =>
      cases h
      exact Dnf.isRegular_of_toDnf hDnf (Filter.isRegular_of_parse hParse)

/-- The compact text of the form of a filter determines the form: two texts are the same exactly
if the forms have the same triples in the same places, up to the order of the members of sets, and
then the forms are equal. -/
theorem compact_dnf_eq_iff {source other : String} {form otherForm : Dnf}
    (h : dnf source = .ok form) (hOther : dnf other = .ok otherForm) :
    (form.toJson.compact = otherForm.toJson.compact ↔ form.IsSame otherForm) ∧
      (form.toJson.compact = otherForm.toJson.compact → form.equals otherForm = true) := by
  have hRegular := isRegular_of_dnf h
  have hIff : form.toJson.compact = otherForm.toJson.compact ↔ form.IsSame otherForm :=
    (Json.compact_inj hRegular.isFinite_toJson
      (isRegular_of_dnf hOther).isFinite_toJson).trans Dnf.toJson_eq_iff
  exact ⟨hIff, fun hText => (hIff.1 hText).equals hRegular⟩

private theorem dnf_of_toOption {source : String} {form : Dnf}
    (h : (dnf source).toOption = some form) : dnf source = .ok form := by
  cases hForm : dnf source with
  | error =>
    rw [hForm] at h
    cases h
  | ok read =>
    rw [hForm] at h
    cases h
    rfl

/-- Two lists of the same values in another order, one of them with a value given twice. -/
theorem compact_dnf_eq_iff_sets :
    ∃ form otherForm, dnf "b = 'y' AND a < 2e300 OR a NOT IN (2, 'x', 1.5)" = .ok form ∧
      dnf "b = 'y' and a < 2E300 or a not in (1.5, 2, 'x', 2)" = .ok otherForm ∧
      form ≠ otherForm ∧ form.IsSame otherForm ∧
      form.toJson.compact = otherForm.toJson.compact ∧ form.equals otherForm = true := by
  let group : List Triple := [⟨"b", .compare .equal, .literal (.text "y")⟩,
    ⟨"a", .compare .less, .literal (.float (.ofDecimal false 2 300))⟩]
  let half : Literal := .float (.ofDecimal false 15 (-1))
  let form : Dnf := ⟨[group, [⟨"a", .notIn, .set ⟨[.integer 2, .text "x", half]⟩⟩]]⟩
  let otherForm : Dnf := ⟨[group, [⟨"a", .notIn, .set ⟨[half, .integer 2, .text "x"]⟩⟩]]⟩
  have hForm : dnf "b = 'y' AND a < 2e300 OR a NOT IN (2, 'x', 1.5)" = .ok form :=
    dnf_of_toOption (by decide +kernel)
  have hOtherForm : dnf "b = 'y' and a < 2E300 or a not in (1.5, 2, 'x', 2)" = .ok otherForm :=
    dnf_of_toOption (by decide +kernel)
  have hSet : Triple.IsSame ⟨"a", .notIn, .set ⟨[.integer 2, .text "x", half]⟩⟩
      ⟨"a", .notIn, .set ⟨[half, .integer 2, .text "x"]⟩⟩ := ⟨rfl, rfl, .set (by decide +kernel)⟩
  have hGroup : List.Forall₂ Triple.IsSame group group :=
    .cons ⟨rfl, rfl, .literal _⟩ (.cons ⟨rfl, rfl, .literal _⟩ .nil)
  have hSame : form.IsSame otherForm := .cons hGroup (.cons (.cons hSet .nil) .nil)
  obtain ⟨hIff, hEquals⟩ := compact_dnf_eq_iff hForm hOtherForm
  exact ⟨form, otherForm, hForm, hOtherForm, by decide +kernel, hSame, hIff.2 hSame,
    hEquals (hIff.2 hSame)⟩

end Compile

end RowFilter
