import Mathlib
import RowFilter.Compile
import RowFilter.Proofs.Json.Text
import RowFilter.Proofs.Pushdown.Conversion
import RowFilter.Proofs.Pushdown.LiteralSet
import RowFilter.Proofs.Syntax.Parse

/-! Sets of literals as JSON text. Neither the order of the values nor repeated
values change the text, but the zero that is given first is the one written. -/

namespace RowFilter

namespace Literal

/-- The number of hyphens in the JSON text of a literal, among them the sign of a zero. -/
def hyphens (value : Literal) : Nat :=
  (Json.showScalar value.toJson).toList.count '-'

theorem text_toJson (value : Literal) :
    value.toJson.text = (Json.showScalar value.toJson).toList := by
  cases value <;> rfl

theorem count_itemsText (values : List Literal) :
    (Json.itemsText (values.map toJson)).count '-' = (values.map hyphens).sum := by
  induction values with
  | nil => rfl
  | cons value values ih =>
    rw [List.map_cons, Json.itemsText, List.count_cons, List.count_append, ih, text_toJson]
    simp [hyphens]

/-- Brackets and commas have no hyphen. -/
theorem count_compact (values : List Literal) :
    (Json.array (values.map toJson)).compact.toList.count '-' = (values.map hyphens).sum := by
  rw [Json.toList_compact]
  cases values with
  | nil => rfl
  | cons value values =>
    rw [List.map_cons, Json.text, List.count_cons, List.count_append, count_itemsText, text_toJson]
    simp [hyphens]

/-- The two zeros are told apart by the sign. -/
theorem eq_of_hyphens {zero other : Literal} (hZero : zero.isZero = true)
    (hOther : other.isZero = true) (h : zero.hyphens = other.hyphens) : zero = other := by
  have hSign (zero : Literal) (hZero : zero.isZero = true) :
      ∃ negative : Bool, zero = float ⟨negative, 0, by decide⟩ := by
    match zero, hZero with
    | float ⟨negative, magnitude, hLt⟩, hZero =>
      obtain rfl : magnitude = 0 := of_decide_eq_true hZero
      exact ⟨negative, rfl⟩
  obtain ⟨negative, rfl⟩ := hSign zero hZero
  obtain ⟨otherNegative, rfl⟩ := hSign other hOther
  have hHyphens (negative : Bool) :
      hyphens (float ⟨negative, 0, by decide⟩) = negative.toNat := by
    cases negative <;> decide +kernel
  rw [hHyphens, hHyphens] at h
  cases negative <;> cases otherNegative <;> first | rfl | cases h

end Literal

namespace Pushdown.Value

open Literal (Covers firstZero? hyphens)

variable {values others : List Literal}

/-- A set is written with the hyphens of its first zero and of its other values. -/
theorem sum_hyphens_sorted (h : LiteralSet.IsSetOf values (LiteralSet.ofList values).members) :
    ((LiteralSet.ofList values).sorted.map hyphens).sum =
      ((firstZero? values).toList.map hyphens).sum +
        (((LiteralSet.ofList values).members.filter (!·.isZero)).map hyphens).sum := by
  have hPerm := (LiteralSet.sorted_perm _).trans h.perm_filter
  rw [(hPerm.map hyphens).sum_eq, List.map_append, List.sum_append]

/-- The texts of sets of the same values differ in the sign of the zero at most. -/
theorem compact_eq_iff (hValues : Covers values others) (hOthers : Covers others values) :
    (set (.ofList values)).toJson.compact = (set (.ofList others)).toJson.compact ↔
      firstZero? values = firstZero? others := by
  have hSet := LiteralSet.isSetOf_ofList fun _ => hValues.not_isNaN
  have hOtherSet := LiteralSet.isSetOf_ofList fun _ => hOthers.not_isNaN
  have hRest := LiteralSet.perm_filter_of_covers hValues hOthers
  constructor
  · intro h
    -- The other members have as many hyphens in both texts, so the zeros have as many.
    have hCount := congrArg (·.toList.count '-') h
    simp only [toJson, Literal.count_compact] at hCount
    rw [sum_hyphens_sorted hSet, sum_hyphens_sorted hOtherSet, (hRest.map hyphens).sum_eq,
      Nat.add_right_cancel_iff] at hCount
    cases hZero : firstZero? values with
    | none => rw [hOthers.firstZero?_eq_none hZero]
    | some zero =>
      obtain ⟨other, hOther⟩ := hValues.exists_isZero hZero
      rw [hZero, hOther] at hCount
      rw [hOther, Literal.eq_of_hyphens (List.find?_some hZero) (List.find?_some hOther)]
      simpa using hCount
  · intro h
    have hPerm := hSet.perm_filter.trans (hRest.append_left _)
    rw [h] at hPerm
    rw [toJson, toJson, LiteralSet.sorted_eq_of_perm (hPerm.trans hOtherSet.perm_filter.symm)]

theorem compact_dnf (column : String) (operator : Operator) (value : Value) :
    (Dnf.toJson ⟨[[⟨column, operator, value⟩]]⟩).compact =
      "[[[" ++ Json.quote column ++ "," ++ Json.quote operator.symbol ++ "," ++
        value.toJson.compact ++ "]]]" := by
  rw [← String.toList_inj]
  simp [Json.toList_compact, Dnf.toJson, Triple.toJson, Json.text, Json.itemsText,
    Json.showScalar]

/-- The form of a condition of membership. -/
theorem dnf_membership {source : String} {column : Column} {negated : Bool} {span : Span}
    (h : Filter.parse source = .ok (.condition (.membership column negated values) span)) :
    ∃ dnf, Compile.dnf source = .ok dnf ∧ dnf.toJson.compact =
      "[[[" ++ Json.quote column.name ++ "," ++
        Json.quote (if negated then Operator.notIn else Operator.isIn).symbol ++ "," ++
        (set (.ofList values)).toJson.compact ++ "]]]" := by
  exact ⟨_, Compile.dnf_condition h rfl, compact_dnf ..⟩

/-- Lists of the same values make equal sets, in whatever order and however often they give them.
The texts of the sets, and of the forms of conditions with them, are equal exactly if the lists
have no zero or give a zero of the same sign first. -/
theorem compact_set_eq_iff (hValues : Covers values others) (hOthers : Covers others values) :
    (LiteralSet.ofList values).equals (.ofList others) = true ∧
      ((set (.ofList values)).toJson.compact = (set (.ofList others)).toJson.compact ↔
        firstZero? values = firstZero? others) ∧
      ∀ {source otherSource : String} {column otherColumn : Column} {negated : Bool}
        {span otherSpan : Span}, column.name = otherColumn.name →
        Filter.parse source = .ok (.condition (.membership column negated values) span) →
        Filter.parse otherSource =
          .ok (.condition (.membership otherColumn negated others) otherSpan) →
        ∃ dnf otherDnf, Compile.dnf source = .ok dnf ∧ Compile.dnf otherSource = .ok otherDnf ∧
          (dnf.toJson.compact = otherDnf.toJson.compact ↔
            firstZero? values = firstZero? others) := by
  refine ⟨LiteralSet.equals_ofList hValues hOthers, compact_eq_iff hValues hOthers, ?_⟩
  intro source otherSource column otherColumn negated span otherSpan hName hSource hOther
  obtain ⟨dnf, hDnf, hText⟩ := dnf_membership hSource
  obtain ⟨otherDnf, hOtherDnf, hOtherText⟩ := dnf_membership hOther
  refine ⟨dnf, otherDnf, hDnf, hOtherDnf, ?_⟩
  rw [← compact_eq_iff hValues hOthers, hText, hOtherText, hName, String.append_left_inj,
    String.append_right_inj]

private theorem exists_membership (source name : String) (negated : Bool) (values : List Literal)
    (h : (Filter.parse source).toOption.map Filter.eraseSpans =
      some (.condition (.membership ⟨name, .none⟩ negated values) .none)) :
    ∃ column span, column.name = name ∧
      Filter.parse source = .ok (.condition (.membership column negated values) span) := by
  obtain ⟨filter, hParse, hErased⟩ := Filter.exists_parse_of_eraseSpans h
  cases filter with
  | condition condition span =>
    cases condition with
    | membership column isNegated members =>
      simp only [Filter.eraseSpans, Condition.eraseSpans, Column.eraseSpans, Filter.condition.injEq,
        Condition.membership.injEq, Column.mk.injEq, and_true] at hErased
      obtain ⟨hName, rfl, rfl⟩ := hErased
      exact ⟨column, span, hName, hParse⟩
    | _ => cases hErased
  | _ => cases hErased

/-- A positive zero behind a negative one and a repeated number leave the text as it is. -/
theorem compact_set_eq_iff_zeros :
    ∃ values others column otherColumn span otherSpan dnf otherDnf,
      Covers values others ∧ Covers others values ∧
      Filter.parse "a IN (2, -0.0, 0.0, 'b')" =
        .ok (.condition (.membership column false values) span) ∧
      Filter.parse "a in ('b', -0.0, 2, 2)" =
        .ok (.condition (.membership otherColumn false others) otherSpan) ∧
      Compile.dnf "a IN (2, -0.0, 0.0, 'b')" = .ok dnf ∧
      Compile.dnf "a in ('b', -0.0, 2, 2)" = .ok otherDnf ∧
      dnf.toJson.compact = otherDnf.toJson.compact := by
  let negative : Literal := .float (.ofBits 0x8000000000000000)
  let values : List Literal := [.integer 2, negative, .float (.ofBits 0), .text "b"]
  let others : List Literal := [.text "b", negative, .integer 2, .integer 2]
  have hValues : Covers values others := by decide +kernel
  have hOthers : Covers others values := by decide +kernel
  obtain ⟨column, span, hName, hParse⟩ :=
    exists_membership "a IN (2, -0.0, 0.0, 'b')" "a" false values (by decide +kernel)
  obtain ⟨otherColumn, otherSpan, hOtherName, hOtherParse⟩ :=
    exists_membership "a in ('b', -0.0, 2, 2)" "a" false others (by decide +kernel)
  obtain ⟨-, -, hTexts⟩ := compact_set_eq_iff hValues hOthers
  obtain ⟨dnf, otherDnf, hDnf, hOtherDnf, hIff⟩ :=
    hTexts (hName.trans hOtherName.symm) hParse hOtherParse
  exact ⟨values, others, column, otherColumn, span, otherSpan, dnf, otherDnf, hValues, hOthers,
    hParse, hOtherParse, hDnf, hOtherDnf, hIff.2 (by decide +kernel)⟩

/-- Two lists of the same zeros make equal sets, which are written with the zero given first. -/
theorem compact_set_depends_on_order :
    ∃ values others column otherColumn span otherSpan dnf otherDnf,
      Covers values others ∧ Covers others values ∧
      Filter.parse "a IN (-0.0, 0.0)" = .ok (.condition (.membership column false values) span) ∧
      Filter.parse "a IN (0.0, -0.0)" =
        .ok (.condition (.membership otherColumn false others) otherSpan) ∧
      (LiteralSet.ofList values).equals (.ofList others) = true ∧
      (set (.ofList values)).toJson.compact = "[-0.0]" ∧
      (set (.ofList others)).toJson.compact = "[0.0]" ∧
      Compile.dnf "a IN (-0.0, 0.0)" = .ok dnf ∧ Compile.dnf "a IN (0.0, -0.0)" = .ok otherDnf ∧
      dnf.toJson.compact = "[[[\"a\",\"in\",[-0.0]]]]" ∧
      otherDnf.toJson.compact = "[[[\"a\",\"in\",[0.0]]]]" := by
  let negative : Literal := .float (.ofBits 0x8000000000000000)
  let positive : Literal := .float (.ofBits 0)
  have hText : (set (.ofList [negative, positive])).toJson.compact = "[-0.0]" := by decide +kernel
  have hOtherText : (set (.ofList [positive, negative])).toJson.compact = "[0.0]" := by
    decide +kernel
  obtain ⟨column, span, hName, hParse⟩ :=
    exists_membership "a IN (-0.0, 0.0)" "a" false [negative, positive] (by decide +kernel)
  obtain ⟨otherColumn, otherSpan, hOtherName, hOtherParse⟩ :=
    exists_membership "a IN (0.0, -0.0)" "a" false [positive, negative] (by decide +kernel)
  obtain ⟨dnf, hDnf, hDnfText⟩ := dnf_membership hParse
  obtain ⟨otherDnf, hOtherDnf, hOtherDnfText⟩ := dnf_membership hOtherParse
  rw [hName, hText] at hDnfText
  rw [hOtherName, hOtherText] at hOtherDnfText
  exact ⟨_, _, column, otherColumn, span, otherSpan, dnf, otherDnf, by decide +kernel,
    by decide +kernel, hParse, hOtherParse, by decide +kernel, hText, hOtherText, hDnf, hOtherDnf,
    hDnfText, hOtherDnfText⟩

end Pushdown.Value

end RowFilter
