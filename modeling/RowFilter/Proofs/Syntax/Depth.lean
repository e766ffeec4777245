import RowFilter.Proofs.Syntax.Nesting
import RowFilter.Proofs.Syntax.Values

/-! The parentheses of a printed filter. The scan for nested parentheses
passes over names, numbers and quoted texts, so it finds the depth of the
filter. -/

namespace RowFilter

open Grammar Text

namespace Nesting

/-- A place of a scan: the quoting and the number of open parentheses. -/
abbrev Place := Quoting × Nat

def Place.step (place : Place) (c : Char) : Place :=
  (place.1.step c, depthAfter place.1 place.2 c)

def scanFrom (place : Place) (text : List Char) : Place := text.foldl Place.step place

/-- The largest number of open parentheses from a place on. -/
def deepestFrom (place : Place) : List Char → Nat
  | [] => place.2
  | c :: text => max place.2 (deepestFrom (place.step c) text)

variable {text others : List Char} {depth : Nat}

theorem scanFrom_cons (place : Place) (c : Char) (text : List Char) :
    scanFrom place (c :: text) = scanFrom (place.step c) text := rfl

private theorem scanFrom_append (place : Place) (text others : List Char) :
    scanFrom place (text ++ others) = scanFrom (scanFrom place text) others :=
  List.foldl_append

/-- No place of a scan is deeper than the deepest one. -/
theorem le_deepestFrom (place : Place) (text : List Char) : place.2 ≤ deepestFrom place text := by
  cases text with
  | nil => exact Nat.le_refl _
  | cons c text => exact Nat.le_max_left ..

/-- The deepest place of two texts is the deeper one of theirs. -/
theorem deepestFrom_append (place : Place) (text others : List Char) :
    deepestFrom place (text ++ others) =
      max (deepestFrom place text) (deepestFrom (scanFrom place text) others) := by
  induction text generalizing place with
  | nil => exact (Nat.max_eq_right (le_deepestFrom place others)).symm
  | cons c text ih =>
    rw [List.cons_append, deepestFrom, deepestFrom, ih, Nat.max_assoc]
    rfl

private theorem excessFrom_eq_none (place : Place) (offset : Nat) (hDepth : place.2 ≤ limit) :
    excessFrom place.1 place.2 offset text = none ↔ deepestFrom place text ≤ limit := by
  induction text generalizing place offset with
  | nil => exact ⟨fun _ => hDepth, fun _ => rfl⟩
  | cons c text ih =>
    have hLe := le_deepestFrom (place.step c) text
    rw [excessFrom, deepestFrom, Nat.max_le]
    split
    · next hExceeds =>
      have hDeep : limit < deepestFrom (place.step c) text := Nat.lt_of_lt_of_le hExceeds hLe
      exact iff_of_false (Option.some_ne_none _) fun h => Nat.not_le_of_lt hDeep h.2
    · next hWithin =>
      have hRest := ih (place.step c) (offset + c.utf8Size) (Nat.le_of_not_lt hWithin)
      exact hRest.trans ⟨fun h => ⟨hDepth, h⟩, fun h => h.2⟩

/-- The scan goes on behind a text in which the limit is never exceeded. -/
theorem excessFrom_append {place : Place} (hDepth : deepestFrom place text ≤ limit) (offset : Nat)
    (others : List Char) :
    excessFrom place.1 place.2 offset (text ++ others) =
      excessFrom (scanFrom place text).1 (scanFrom place text).2 (offset + byteLength text)
        others := by
  induction text generalizing place offset with
  | nil => rfl
  | cons c text ih =>
    rw [deepestFrom, Nat.max_le] at hDepth
    have hStep : depthAfter place.1 place.2 c ≤ limit :=
      Nat.le_trans (le_deepestFrom (place.step c) text) hDepth.2
    have hRest := ih hDepth.2 (offset + c.utf8Size)
    rw [List.cons_append, excessFrom, if_neg (Nat.not_lt_of_le hStep), byteLength_cons,
      ← Nat.add_assoc]
    exact hRest

/-- A text is within the limit exactly if its deepest place is. -/
theorem isWithinLimit_iff :
    IsWithinLimit text ↔ deepestFrom (.outside, 0) text ≤ limit := by
  rw [← firstExcess_eq_none]
  exact excessFrom_eq_none (.outside, 0) 0 (Nat.zero_le limit)

/-- A text that leaves a scan where it was and has a number of parentheses
open at its deepest place. -/
structure Nests (text : List Char) (depth : Nat) : Prop where
  scan_eq : ∀ before, scanFrom (.outside, before) text = (.outside, before)
  deepest_eq : ∀ before, deepestFrom (.outside, before) text = before + depth

namespace Nests

theorem nil : Nests [] 0 := ⟨fun _ => rfl, fun _ => rfl⟩

/-- Two texts nest as deep as the deeper one of them. -/
theorem append {other : Nat} (h : Nests text depth) (hOthers : Nests others other) :
    Nests (text ++ others) (max depth other) := by
  constructor
  · intro before
    rw [scanFrom_append, h.scan_eq, hOthers.scan_eq]
  · intro before
    rw [deepestFrom_append, h.scan_eq, h.deepest_eq, hOthers.deepest_eq, Nat.add_max_add_left]

/-- Nothing is added by a text without parentheses. -/
theorem append_flat (h : Nests text depth) (hOthers : Nests others 0) :
    Nests (text ++ others) depth := by
  have hAppend := h.append hOthers
  rwa [Nat.max_zero] at hAppend

theorem flat_append (h : Nests text 0) (hOthers : Nests others depth) :
    Nests (text ++ others) depth := by
  have hAppend := h.append hOthers
  rwa [Nat.zero_max] at hAppend

/-- A character that is no parenthesis and no quote is passed. -/
theorem cons {c : Char} (hPlain : c ∉ marks) (h : Nests text depth) :
    Nests (c :: text) depth := by
  simp only [marks, List.mem_cons, List.not_mem_nil, or_false, not_or] at hPlain
  have hStep (before : Nat) : Place.step (.outside, before) c = (.outside, before) := by
    simp [Place.step, Quoting.step, depthAfter, hPlain]
  constructor
  · intro before
    rw [scanFrom_cons, hStep, h.scan_eq]
  · intro before
    rw [deepestFrom, hStep, h.deepest_eq]
    exact Nat.max_eq_right (Nat.le_add_right ..)

/-- A text without parentheses and quotes nests nothing. -/
theorem of_plain (h : ∀ c ∈ text, c ∉ marks) : Nests text 0 := by
  induction text with
  | nil => exact nil
  | cons c text ih =>
    rw [List.forall_mem_cons] at h
    exact cons h.1 (ih h.2)

theorem of_word (h : text.all (!marks.contains ·) = true) : Nests text 0 := by
  apply of_plain
  simpa using h

/-- Parentheses around a text. -/
theorem enclosed {needed : Bool} (h : Nests text depth) :
    Nests (enclosed needed text) (enclosedDepth needed depth) := by
  cases needed with
  | false => exact h
  | true =>
    constructor
    · intro before
      change scanFrom (.outside, before + 1) (text ++ [')']) = _
      rw [scanFrom_append, h.scan_eq]
      rfl
    · intro before
      change max before (deepestFrom (.outside, before + 1) (text ++ [')'])) = before + (depth + 1)
      rw [deepestFrom_append, h.scan_eq, h.deepest_eq]
      change max before (max (before + 1 + depth) (max (before + 1) before)) = _
      omega

end Nests

private theorem scan_quotable {quote : Char} (h : IsQuotable quote text) (before : Nat) :
    scanFrom (.inside quote, before) text = (.inside quote, before) ∧
      deepestFrom (.inside quote, before) text = before := by
  induction h with
  | nil => exact ⟨rfl, rfl⟩
  | escaped c _ ih =>
    refine ⟨ih.1, ?_⟩
    change max before (max before (deepestFrom (.inside quote, before) _)) = before
    rw [ih.2, Nat.max_self, Nat.max_self]
  | @plain c _ hQuote hBackslash _ ih =>
    have hStep : Place.step (.inside quote, before) c = (.inside quote, before) := by
      simp [Place.step, Quoting.step, depthAfter, hQuote, hBackslash]
    refine ⟨?_, ?_⟩
    · rw [scanFrom_cons, hStep, ih.1]
    · rw [deepestFrom, hStep, ih.2, Nat.max_self]

/-- A quoted text nests nothing. -/
theorem nests_quoted {quote : Quote} (h : IsQuotable quote.char text) :
    Nests (quote.char :: (text ++ [quote.char])) 0 := by
  have hScan (before : Nat) := scan_quotable h before
  have hOpen (before : Nat) : Place.step (.outside, before) quote.char =
      (.inside quote.char, before) := by
    cases quote <;> rfl
  have hClose (before : Nat) : Place.step (.inside quote.char, before) quote.char =
      (.outside, before) := by
    cases quote <;> rfl
  constructor
  · intro before
    rw [scanFrom_cons, hOpen, scanFrom_append, (hScan before).1]
    exact hClose before
  · intro before
    rw [deepestFrom, hOpen, deepestFrom_append, (hScan before).1, (hScan before).2, deepestFrom,
      hClose, deepestFrom]
    simp

end Nesting

section Printed

open Nesting

variable {quote : String → Quote}

theorem nests_name {name : List Char} (h : Rule.name.readsWhole name = true) : Nests name 0 :=
  .of_plain (not_mem_marks rfl (takes_of_readsWhole rfl h))

theorem nests_spelling (spelling : Spelling) : Nests spelling.text 0 := by
  have hTakes : filterGrammar.Takes 0 (.rule .number) (spelling.text ++ []) spelling.text [] :=
    takes_spelling spelling ⟨trivial, fun _ _ => trivial⟩
  exact .of_plain (not_mem_marks rfl hTakes)

theorem nests_literal {value : Literal} (hRegular : value.IsRegular)
    (hSpellable : value.IsSpellable quote) : Nests (value.source quote) 0 := by
  rcases exists_spelling_or_text hRegular quote with ⟨spelling, hSource, -⟩ | ⟨text, rfl⟩
  · rw [hSource]
    exact nests_spelling spelling
  · exact nests_quoted ((quote text).isQuotable hSpellable)

theorem nests_operand {right : Operand} (hRegular : right.IsRegular)
    (hSpellable : right.IsSpellable quote) : Nests (right.source quote) 0 := by
  cases right with
  | column column => exact nests_name hSpellable
  | literal value => exact nests_literal hRegular hSpellable

private theorem nests_intercalate {texts : List (List Char)} (h : ∀ text ∈ texts, Nests text 0) :
    Nests ([',', ' '].intercalate texts) 0 := by
  induction texts with
  | nil => exact .nil
  | cons text texts ih =>
    rw [List.forall_mem_cons] at h
    cases texts with
    | nil =>
      rw [List.intercalate_singleton]
      exact h.1
    | cons next texts =>
      rw [List.intercalate_cons_cons, List.append_assoc]
      exact h.1.append_flat (.cons (by decide) (.cons (by decide) (ih h.2)))

private theorem nests_between {first word second : List Char} {left right : Nat}
    (hFirst : Nests first left) (hWord : word.all (!marks.contains ·) = true)
    (hSecond : Nests second right) :
    Nests (first ++ ' ' :: (word ++ ' ' :: second)) (max left right) := by
  have hBlank : ' ' ∉ marks := by decide
  exact hFirst.append (.cons hBlank ((Nests.of_word hWord).flat_append (.cons hBlank hSecond)))

/-- A printed condition nests as deep as its values. -/
theorem nests_condition {c : Condition} (hRegular : c.IsRegular)
    (hSpellable : c.IsSpellable quote) : Nests (c.source quote) c.depth := by
  cases c with
  | comparison left operator right =>
    have hSymbol : operator.symbol.toList.all (!marks.contains ·) = true := by
      cases operator <;> rfl
    exact nests_between (nests_name hSpellable.1) hSymbol (nests_operand hRegular hSpellable.2)
  | nullCheck column negated =>
    have hWords : Nests (if negated then "IS NOT NULL" else "IS NULL").toList 0 := by
      cases negated <;> exact .of_word rfl
    exact (nests_name hSpellable).append_flat (.cons (by decide) hWords)
  | membership column negated values =>
    have hValues : Nests ([',', ' '].intercalate (values.map (Literal.source quote))) 0 := by
      refine nests_intercalate (List.forall_mem_map.2 fun value hValue => ?_)
      exact nests_literal (hRegular.2 value hValue) (hSpellable.2 value hValue)
    have hWords : (if negated then "NOT IN" else "IN").toList.all (!marks.contains ·) = true := by
      cases negated <;> rfl
    have hList := @Nests.enclosed _ _ true hValues
    exact nests_between (nests_name hSpellable.1) hWords hList

/-- A printed filter nests as deep as it says. -/
theorem nests_filter {filter : Filter} (hRegular : filter.IsRegular)
    (hSpellable : filter.IsSpellable quote) : Nests (filter.source quote) filter.depth := by
  induction hRegular with
  | condition h => exact nests_condition h (Filter.isSpellable_condition.1 hSpellable)
  | negation h =>
    have hOperand := Filter.isSpellable_not.1 hSpellable
    have hCondition := nests_condition h (Filter.isSpellable_condition.1 hOperand)
    have hNot : Nests "NOT".toList 0 := .of_word rfl
    exact hNot.flat_append (.cons (by decide) hCondition)
  | and _ _ ihLeft ihRight =>
    obtain ⟨hLeft, hRight⟩ := Filter.isSpellable_and.1 hSpellable
    exact nests_between (ihLeft hLeft).enclosed rfl (ihRight hRight).enclosed
  | or _ _ ihLeft ihRight =>
    obtain ⟨hLeft, hRight⟩ := Filter.isSpellable_or.1 hSpellable
    exact nests_between (ihLeft hLeft) rfl (ihRight hRight).enclosed

/-- A printed filter is within the limit if its depth is. -/
theorem isWithinLimit_source {filter : Filter} (hRegular : filter.IsRegular)
    (hSpellable : filter.IsSpellable quote) :
    IsWithinLimit (filter.source quote) ↔ filter.depth ≤ limit := by
  rw [isWithinLimit_iff, (nests_filter hRegular hSpellable).deepest_eq, Nat.zero_add]

end Printed

end RowFilter
