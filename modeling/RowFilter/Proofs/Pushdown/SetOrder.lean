import Mathlib
import RowFilter.Proofs.Binary64.Value
import RowFilter.Proofs.Pushdown.LiteralSet

/-! The order in which sets are written. It is a total order of all literals, so
a set is written in one way, in whatever order its members are held. Numbers
come first and texts last. An integer is compared with another number after it
has been rounded, so it may stand before the number that it is rounded down to. -/

namespace RowFilter

open Binary64 (ExactValue valueOfInt)

namespace Literal

variable {a b c : Literal}

/-- Reversing the arguments reverses the answer. -/
theorem order_swap (a b : Literal) : b.order a = (a.order b).swap := by
  cases a <;> cases b <;> simp only [order]
  case integer.integer | text.text => exact Std.OrientedOrd.eq_swap
  case integer.float | float.integer | float.float =>
    rw [Ordering.swap_then, ← Std.OrientedOrd.eq_swap]
    rfl
  all_goals rfl

instance : Std.OrientedCmp order where
  eq_swap := order_swap _ _

instance : Std.TransCmp order where
  isLE_trans hLeft hRight := isLE_order.2 ((isLE_order.1 hLeft).trans (isLE_order.1 hRight))

instance : Std.LawfulEqCmp order where
  eq_of_compare {a b} h := by
    have hLeft : a.Precedes b := isLE_order.1 (by rw [h]; rfl)
    have hRight : b.Precedes a := isLE_order.1 (by rw [order_swap a b, h]; rfl)
    exact hLeft.antisymm hRight

/-- The ascending sequence of the members of a set is the one that is written. -/
theorem sorted_eq_of_order {set : LiteralSet} {written : List Literal}
    (hPerm : written.Perm set.members) (hOrder : written.Pairwise fun a b => a.order b ≠ .gt) :
    set.sorted = written :=
  (LiteralSet.eq_sorted_of_perm hPerm (hOrder.imp LiteralSet.order_ne_gt_iff.1)).symm

/-- The order is a total order of all literals, what is not a number and both zeros included:
only a literal itself is in its place. So whatever the order in which the members of a set are
held, they are written in one sequence, the only ascending one. -/
theorem order_isTotal :
    (∀ a : Literal, a.order a = .eq) ∧
      (∀ a b : Literal, a.order b = .eq → a = b) ∧
      (∀ a b : Literal, b.order a = (a.order b).swap) ∧
      (∀ a b c : Literal, a.order b ≠ .gt → b.order c ≠ .gt → a.order c ≠ .gt) ∧
      ∀ members held : List Literal, held.Perm members →
        (LiteralSet.mk held).sorted = (LiteralSet.mk members).sorted ∧
          ∀ written, (LiteralSet.mk held).sorted = written ↔
            written.Perm members ∧ written.Pairwise fun a b => a.order b ≠ .gt := by
  refine ⟨fun _ => Std.ReflCmp.compare_self, fun _ _ => Std.LawfulEqCmp.eq_of_compare, order_swap,
    fun a b c hLeft hRight => ?_, fun members held hPerm => ⟨?_, fun written => ⟨?_, ?_⟩⟩⟩
  · exact Ordering.ne_gt_iff_isLE.2 (Std.TransCmp.isLE_trans (Ordering.ne_gt_iff_isLE.1 hLeft)
      (Ordering.ne_gt_iff_isLE.1 hRight))
  · exact LiteralSet.sorted_eq_of_perm hPerm
  · rintro rfl
    exact ⟨(LiteralSet.sorted_perm _).trans hPerm,
      (LiteralSet.pairwise_sorted _).imp LiteralSet.order_ne_gt_iff.2⟩
  · rintro ⟨hWritten, hOrder⟩
    exact sorted_eq_of_order (hWritten.trans hPerm.symm) hOrder

/-! Exact values. -/

/-- The exact value of a number. A text has none. -/
def exactValue? : Literal → Option ExactValue
  | integer n => some (valueOfInt n.toInt)
  | float x => some x.value
  | text _ => none

/-- Whether two literals are numbers, and the value of the first one is not above that of the
second. -/
def IsAtMost (a b : Literal) : Prop :=
  ∃ low high, a.exactValue? = some low ∧ b.exactValue? = some high ∧ low ≤ high

/-- Whether an integer is followed by the number nearest to it, and that one is smaller. -/
def RoundsDownTo (a b : Literal) : Prop :=
  ∃ n : Int64, a = integer n ∧ b = float (.ofInt n.toInt) ∧
    (Binary64.ofInt n.toInt).value < valueOfInt n.toInt

/-- Numbers come in the order of their values, but an integer comes before the number nearest to
it even if that one is smaller. -/
theorem Precedes.isAtMost_or (hA : a.isNaN = false) (hB : b.isNaN = false)
    (hNumber : b.exactValue?.isSome = true) (h : a.Precedes b) : a.IsAtMost b ∨ a.RoundsDownTo b := by
  cases a <;> cases b <;> simp only [Precedes] at h
  case text.text | float.text | integer.text => cases hNumber
  case integer.integer m n => exact .inl ⟨_, _, rfl, rfl, Binary64.valueOfInt_le_valueOfInt.2 h⟩
  case float.float x y => exact .inl ⟨_, _, rfl, rfl, Binary64.value_mono hA hB h⟩
  case float.integer x n =>
    refine .inl ⟨_, _, rfl, rfl, le_of_not_gt fun hLt => ?_⟩
    have hRank := Binary64.rank_ofInt_le hA hLt
    omega
  case integer.float n x =>
    by_cases hLt : x.value < valueOfInt n.toInt
    · have hRank := Binary64.le_rank_ofInt hB hLt
      obtain rfl := Binary64.rank_inj.1 (Int.le_antisymm hRank h)
      exact .inr ⟨n, rfl, rfl, hLt⟩
    · exact .inl ⟨_, _, rfl, rfl, le_of_not_gt hLt⟩

/-- In ascending order no number comes behind a text. -/
theorem exists_numbers_texts {written : List Literal} (h : written.Pairwise Precedes) :
    ∃ (numbers : List Literal) (texts : List String), written = numbers ++ texts.map text ∧
      ∀ number ∈ numbers, number.exactValue?.isSome = true := by
  induction h with
  | nil => exact ⟨[], [], rfl, List.forall_mem_nil _⟩
  | @cons first others hFirst _ ih =>
    obtain ⟨numbers, texts, rfl, hNumbers⟩ := ih
    cases first with
    | text first =>
      cases numbers with
      | nil => exact ⟨[], first :: texts, rfl, List.forall_mem_nil _⟩
      | cons number numbers =>
        have hPrecedes := hFirst number List.mem_cons_self
        have hSome := hNumbers number List.mem_cons_self
        cases number with
        | text => cases hSome
        | integer | float => cases hPrecedes
    | integer n => exact ⟨integer n :: numbers, texts, rfl, List.forall_mem_cons.2 ⟨rfl, hNumbers⟩⟩
    | float x => exact ⟨float x :: numbers, texts, rfl, List.forall_mem_cons.2 ⟨rfl, hNumbers⟩⟩

/-- An integer is above the number that it is rounded down to. -/
theorem RoundsDownTo.not_isAtMost (h : a.RoundsDownTo b) : ¬a.IsAtMost b := by
  obtain ⟨n, rfl, rfl, hLt⟩ := h
  rintro ⟨low, high, hLow, hHigh, hLe⟩
  cases hLow
  cases hHigh
  exact absurd hLe (not_le_of_gt hLt)

theorem RoundsDownTo.not_precedes (h : a.RoundsDownTo b) : ¬b.Precedes a := by
  obtain ⟨n, rfl, rfl, -⟩ := h
  exact Int.lt_irrefl _

end Literal

namespace LiteralSet

open Literal

variable {values : List Literal}

theorem IsSetOf.isNaN_eq_false {members : List Literal} (h : IsSetOf values members)
    (hNumbers : ∀ value ∈ values, value.isNaN = false) {member : Literal}
    (hMember : member ∈ members) : member.isNaN = false := by
  cases hZero : member.isZero with
  | true => exact isNaN_of_isZero hZero
  | false => exact hNumbers member ((h.mem_iff member hZero).1 hMember)

/-- Of two members of a sequence one comes before the other. -/
theorem rel_or_rel_of_pairwise {R : Literal → Literal → Prop} {written : List Literal}
    (h : written.Pairwise R) {a b : Literal} (ha : a ∈ written) (hb : b ∈ written) (hNe : a ≠ b) :
    R a b ∨ R b a := by
  have hEither : written.Pairwise fun x y => R x y ∨ R y x := h.imp Or.inl
  have : Std.Symm fun x y => R x y ∨ R y x := ⟨fun _ _ => Or.symm⟩
  exact hEither.forall ha hb hNe

/-- In ascending order distinct texts strictly ascend. -/
theorem pairwise_lt_texts {texts : List String} (hOrder : (texts.map text).Pairwise Precedes)
    (hNodup : (texts.map text).Nodup) : texts.Pairwise (· < ·) :=
  ((List.pairwise_map.1 hOrder).and (hNodup.of_map text)).imp fun h => lt_of_le_of_ne h.1 h.2

/-- Where numbers ascend by value, none is rounded down to another one. -/
theorem not_roundsDownTo_of_pairwise {numbers : List Literal} (hOrder : numbers.Pairwise Precedes)
    (h : numbers.Pairwise IsAtMost) {a b : Literal} (ha : a ∈ numbers) (hb : b ∈ numbers) :
    ¬a.RoundsDownTo b := by
  intro hRounds
  have hNe : a ≠ b := by
    obtain ⟨_, rfl, rfl, -⟩ := hRounds
    nofun
  rcases rel_or_rel_of_pairwise (hOrder.and h) ha hb hNe with hLeft | hRight
  · exact hRounds.not_isAtMost hLeft.2
  · exact hRounds.not_precedes hRight.1

/-- What is rounded, and what it is rounded to, are numbers. -/
theorem mem_of_roundsDownTo {numbers : List Literal} {texts : List String} {a b : Literal}
    (h : a.RoundsDownTo b) (ha : a ∈ numbers ++ texts.map text)
    (hb : b ∈ numbers ++ texts.map text) : a ∈ numbers ∧ b ∈ numbers := by
  obtain ⟨_, rfl, rfl, -⟩ := h
  exact ⟨(List.mem_append.1 ha).resolve_right (by simp),
    (List.mem_append.1 hb).resolve_right (by simp)⟩

/-- A set without what is not a number is written numbers first, then texts in strictly ascending
order. No number is above a later one, but that an integer may stand before a smaller number to
which it is rounded. So the numbers are in ascending order of their exact values exactly if the
set has no such integer. -/
theorem sorted_ascending (hNumbers : ∀ value ∈ values, value.isNaN = false) :
    ∃ (numbers : List Literal) (texts : List String),
      (ofList values).sorted = numbers ++ texts.map text ∧
      (∀ number ∈ numbers, number.exactValue?.isSome = true) ∧ texts.Pairwise (· < ·) ∧
      numbers.Pairwise (fun a b => a.IsAtMost b ∨ a.RoundsDownTo b) ∧
      (numbers.Pairwise IsAtMost ↔ ∀ a ∈ (ofList values).members,
        ∀ b ∈ (ofList values).members, ¬a.RoundsDownTo b) := by
  have hSet := isSetOf_ofList hNumbers
  have hMem {value : Literal} : value ∈ (ofList values).sorted ↔ value ∈ (ofList values).members :=
    (sorted_perm _).mem_iff
  have hNodup : (ofList values).sorted.Nodup := (sorted_perm _).nodup_iff.2 hSet.nodup
  have hOrder := pairwise_sorted (ofList values)
  obtain ⟨numbers, texts, hSorted, hSome⟩ := exists_numbers_texts hOrder
  rw [hSorted] at hNodup hOrder hMem
  obtain ⟨hNumberOrder, hTextOrder, -⟩ := List.pairwise_append.1 hOrder
  have hNumber : ∀ a ∈ numbers, a.isNaN = false := fun a ha =>
    hSet.isNaN_eq_false hNumbers (hMem.1 (List.mem_append_left _ ha))
  have hAscending : numbers.Pairwise fun a b => a.IsAtMost b ∨ a.RoundsDownTo b :=
    hNumberOrder.imp_of_mem fun ha hb =>
      Precedes.isAtMost_or (hNumber _ ha) (hNumber _ hb) (hSome _ hb)
  refine ⟨numbers, texts, hSorted, hSome, pairwise_lt_texts hTextOrder hNodup.of_append_right,
    hAscending, fun h a ha b hb hRounds => ?_, fun h => ?_⟩
  · obtain ⟨ha, hb⟩ := mem_of_roundsDownTo hRounds (hMem.2 ha) (hMem.2 hb)
    exact not_roundsDownTo_of_pairwise hNumberOrder h ha hb hRounds
  · refine hAscending.imp_of_mem fun ha hb hPair => hPair.resolve_right ?_
    exact h _ (hMem.1 (List.mem_append_left _ ha)) _ (hMem.1 (List.mem_append_left _ hb))

/-- All numbers but one that an integer is rounded down to are in ascending order. -/
theorem sorted_ascending_mixed :
    let values : List Literal := [.text "b", .integer 9007199254740993, .float (.ofBits 0),
      .integer (-1), .float (.ofBits 0x4340000000000000), .text "a", .integer 3, .integer 3]
    (∀ value ∈ values, value.isNaN = false) ∧
      (ofList values).sorted = [.integer (-1), .float (.ofBits 0), .integer 3,
        .integer 9007199254740993, .float (.ofBits 0x4340000000000000), .text "a", .text "b"] ∧
      ∃ (numbers : List Literal) (texts : List String),
        (ofList values).sorted = numbers ++ texts.map text ∧
        (∀ number ∈ numbers, number.exactValue?.isSome = true) ∧ texts.Pairwise (· < ·) ∧
        numbers.Pairwise (fun a b => a.IsAtMost b ∨ a.RoundsDownTo b) ∧
        (numbers.Pairwise IsAtMost ↔ ∀ a ∈ (ofList values).members,
          ∀ b ∈ (ofList values).members, ¬a.RoundsDownTo b) := by
  have hNumbers : ∀ value ∈ ([.text "b", .integer 9007199254740993, .float (.ofBits 0),
      .integer (-1), .float (.ofBits 0x4340000000000000), .text "a", .integer 3,
      .integer 3] : List Literal), value.isNaN = false := by decide
  exact ⟨hNumbers, sorted_eq_of_order (by decide +kernel) (by decide +kernel),
    sorted_ascending hNumbers⟩

/-- An integer stands before a smaller number in what is written. -/
theorem sorted_not_ascending :
    ∃ values, (∀ value ∈ values, value.isNaN = false) ∧
      (ofList values).sorted = [.integer 9007199254740993, .float (.ofBits 0x4340000000000000)] ∧
      ¬IsAtMost (.integer 9007199254740993) (.float (.ofBits 0x4340000000000000)) := by
  have hRounds : RoundsDownTo (.integer 9007199254740993) (.float (.ofBits 0x4340000000000000)) := by
    refine ⟨9007199254740993, rfl, by decide +kernel, ?_⟩
    exact (Binary64.lt_valueOfInt_iff (by decide +kernel)).2 (by decide +kernel)
  exact ⟨[.integer 9007199254740993, .float (.ofBits 0x4340000000000000)], by decide,
    sorted_eq_of_order (by decide +kernel) (by decide +kernel), hRounds.not_isAtMost⟩

end LiteralSet

end RowFilter
