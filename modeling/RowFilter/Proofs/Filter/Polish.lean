import RowFilter.Polish
import RowFilter.Proofs.Filter.Canonical
import RowFilter.Proofs.Filter.Regular
import RowFilter.Proofs.Filter.Rendering
import RowFilter.Proofs.Filter.Spans

/-! Polish notation read back from the left. Each part of a filter ends at a
character that is not in it, texts apart: a text ends at the first quote that
is followed by what may stand behind a text. -/

namespace RowFilter

open Text

/-- Whether no quote in a text is followed by one of some characters. -/
def Literal.IsDelimitedBy (closers : List Char) : Literal → Prop
  | text s => ∀ c ∈ closers, ¬['\'', c] <:+: s.toList
  | _ => True

instance (closers : List Char) : (value : Literal) → Decidable (value.IsDelimitedBy closers)
  | .text s =>
    @List.decidableBAll _ (fun c => ¬['\'', c] <:+: s.toList)
      (fun c => @instDecidableNot _ (List.instDecidableIsInfixOfDecidableEq ['\'', c] s.toList))
      closers
  | .integer _ => .isTrue trivial
  | .float _ => .isTrue trivial

/-- Whether each text of a condition ends where Polish notation seems to end it. -/
def Condition.IsDelimited : Condition → Prop
  | comparison _ _ (.literal value) => value.IsDelimitedBy [')']
  | membership _ _ values => ∀ value ∈ values, value.IsDelimitedBy [',', ']']
  | _ => True

instance : (c : Condition) → Decidable c.IsDelimited
  | .comparison _ _ (.literal value) => inferInstanceAs (Decidable (value.IsDelimitedBy [')']))
  | .comparison _ _ (.column _) => .isTrue trivial
  | .nullCheck _ _ => .isTrue trivial
  | .membership _ _ values =>
    inferInstanceAs (Decidable (∀ value ∈ values, value.IsDelimitedBy [',', ']']))

/-- Whether each text of a filter ends where Polish notation seems to end it. -/
def Filter.IsDelimited (filter : Filter) : Prop :=
  ∀ c ∈ filter.conditions, c.IsDelimited

instance (filter : Filter) : Decidable filter.IsDelimited :=
  inferInstanceAs (Decidable (∀ c ∈ filter.conditions, c.IsDelimited))

theorem Condition.isDelimited_eraseSpans {c : Condition} :
    c.eraseSpans.IsDelimited ↔ c.IsDelimited := by
  rcases c with ⟨left, operator, column | value⟩ | ⟨column, negated⟩ | ⟨column, negated, values⟩ <;>
    exact Iff.rfl

/-- Spans do not matter to where texts end. -/
theorem Filter.isDelimited_eraseSpans {filter : Filter} :
    filter.eraseSpans.IsDelimited ↔ filter.IsDelimited := by
  simp only [IsDelimited, conditions_eraseSpans, List.forall_mem_map,
    Condition.isDelimited_eraseSpans]

/-- Whether the name of a column does not end early in Polish notation. -/
def Column.IsPlain (column : Column) : Prop := '>' ∉ column.name.toList

def Operand.IsPlain : Operand → Prop
  | column c => c.IsPlain
  | literal _ => True

def Condition.IsPlain : Condition → Prop
  | comparison left _ right => left.IsPlain ∧ right.IsPlain
  | nullCheck column _ => column.IsPlain
  | membership column _ _ => column.IsPlain

/-- Whether no name of a filter ends early in Polish notation. -/
def Filter.IsPlain (filter : Filter) : Prop :=
  ∀ c ∈ filter.conditions, c.IsPlain

section Literals

variable {a b : Literal} {closers rest otherRest : List Char} {c d : Char}

private theorem append_quote_inj {text other : List Char} (hText : ¬['\'', d] <:+: text)
    (hOther : ¬['\'', c] <:+: other) (hQuote : c ≠ '\'' ∧ d ≠ '\'')
    (h : text ++ '\'' :: c :: rest = other ++ '\'' :: d :: otherRest) :
    text = other ∧ c = d ∧ rest = otherRest := by
  induction text generalizing other with
  | nil =>
    cases other with
    | nil =>
      simp only [List.nil_append, List.cons.injEq, true_and] at h
      exact ⟨rfl, h⟩
    | cons first other =>
      simp only [List.nil_append, List.cons_append, List.cons.injEq] at h
      obtain ⟨rfl, hRest⟩ := h
      cases other with
      | nil => exact absurd (List.cons.inj hRest).1 hQuote.1
      | cons second other =>
        obtain ⟨rfl, -⟩ := List.cons.inj hRest
        exact absurd ⟨[], other, rfl⟩ hOther
  | cons first text ih =>
    cases other with
    | nil =>
      simp only [List.nil_append, List.cons_append, List.cons.injEq] at h
      obtain ⟨rfl, hRest⟩ := h
      cases text with
      | nil => exact absurd (List.cons.inj hRest).1.symm hQuote.2
      | cons second text =>
        obtain ⟨rfl, -⟩ := List.cons.inj hRest
        exact absurd ⟨[], text, rfl⟩ hText
    | cons second other =>
      obtain ⟨rfl, hRest⟩ := List.cons.inj h
      obtain ⟨rfl, hEq⟩ := ih (fun hIn => hText (List.infix_cons hIn))
        (fun hIn => hOther (List.infix_cons hIn)) hRest
      exact ⟨rfl, hEq⟩

private theorem exists_isSpelledBy {value : Literal} (h : value.IsRegular)
    (hNumber : ∀ s, value ≠ .text s) : ∃ spelling, value.IsSpelledBy spelling := by
  cases value with
  | integer n => exact Literal.exists_spelling_integer n
  | float x => exact Literal.exists_spelling_float h
  | text s => exact absurd rfl (hNumber s)

private theorem toList_canonical_text (s : String) :
    (Literal.text s).canonical.toList = '\'' :: (s.toList ++ ['\'']) := by
  simp [Literal.canonical]

private theorem canonical_eq_cons {value : Literal} (h : value.IsRegular)
    (hNumber : ∀ s, value ≠ .text s) :
    ∃ first others, value.canonical.toList = first :: others ∧ isNumberChar first = true := by
  obtain ⟨spelling, hSpelled⟩ := exists_isSpelledBy h hNumber
  obtain ⟨first, others, hText, hFirst⟩ := Numeral.exists_text_eq_cons spelling
  exact ⟨first, others, hSpelled.canonical_eq.trans hText, hFirst⟩

private theorem canonical_append_inj (hA : a.IsRegular) (hB : b.IsRegular)
    (hDelimitedA : a.IsDelimitedBy closers) (hDelimitedB : b.IsDelimitedBy closers)
    (hAll : closers.all (fun c => !isNumberChar c && c ≠ '\'') = true) (hc : c ∈ closers)
    (hd : d ∈ closers)
    (h : a.canonical.toList ++ c :: rest = b.canonical.toList ++ d :: otherRest) :
    a = b ∧ c = d ∧ rest = otherRest := by
  have hClosers {c : Char} (hc : c ∈ closers) : isNumberChar c = false ∧ c ≠ '\'' := by
    simpa using List.all_eq_true.1 hAll c hc
  by_cases hTextA : ∃ s, a = .text s
  · obtain ⟨s, rfl⟩ := hTextA
    by_cases hTextB : ∃ s, b = .text s
    · obtain ⟨t, rfl⟩ := hTextB
      simp only [toList_canonical_text, List.cons_append, List.append_assoc, List.nil_append,
        List.cons.injEq, true_and] at h
      obtain ⟨hEq, hRest⟩ := append_quote_inj (hDelimitedA d hd) (hDelimitedB c hc)
        ⟨(hClosers hc).2, (hClosers hd).2⟩ h
      exact ⟨congrArg Literal.text (String.toList_inj.1 hEq), hRest⟩
    · obtain ⟨first, others, hText, hFirst⟩ := canonical_eq_cons hB (not_exists.1 hTextB)
      rw [toList_canonical_text, hText] at h
      obtain ⟨rfl, -⟩ := List.cons.inj h
      cases hFirst
  · by_cases hTextB : ∃ s, b = .text s
    · obtain ⟨t, rfl⟩ := hTextB
      obtain ⟨first, others, hText, hFirst⟩ := canonical_eq_cons hA (not_exists.1 hTextA)
      rw [toList_canonical_text, hText] at h
      obtain ⟨rfl, -⟩ := List.cons.inj h
      cases hFirst
    · obtain ⟨spelling, hSpelledA⟩ := exists_isSpelledBy hA (not_exists.1 hTextA)
      obtain ⟨other, hSpelledB⟩ := exists_isSpelledBy hB (not_exists.1 hTextB)
      have hStops {c : Char} (hc : c ∈ closers) (rest : List Char) :
          StopsAt isNumberChar (c :: rest) := (hClosers hc).1
      rw [hSpelledA.canonical_eq, hSpelledB.canonical_eq] at h
      obtain ⟨hNumeral, hRest⟩ := Numeral.text_append_inj (hStops hc rest) (hStops hd otherRest) h
      have hLiteral := hSpelledA.ofNumeral?_eq
      rw [hNumeral, hSpelledB.ofNumeral?_eq, Option.some.injEq] at hLiteral
      exact ⟨hLiteral.symm, List.cons.inj hRest⟩

end Literals

section Conditions

variable {rest otherRest : List Char}

private theorem append_cons_inj {text other : List Char} {c : Char} (hText : c ∉ text)
    (hOther : c ∉ other) (h : text ++ c :: rest = other ++ c :: otherRest) :
    text = other ∧ rest = otherRest := by
  have hStops (rest : List Char) : StopsAt (fun d => d ≠ c) (c :: rest) := by simp
  have hNe {text : List Char} (hText : c ∉ text) : ∀ d ∈ text, decide (d ≠ c) = true :=
    fun d hd => decide_eq_true fun hEq => hText (hEq ▸ hd)
  have hEq : text = other := by
    rw [← (hStops rest).takeWhile_append (hNe hText), h,
      (hStops otherRest).takeWhile_append (hNe hOther)]
  rw [hEq, List.append_cancel_left_eq, List.cons.injEq] at h
  exact ⟨hEq, h.2⟩

private theorem toList_column (column : Column) :
    (Polish.column column).toList = "Column<".toList ++ (column.name.toList ++ ['>']) := by
  simp [Polish.column]

private theorem column_append_inj {a b : Column} (hA : a.IsPlain) (hB : b.IsPlain)
    (h : (Polish.column a).toList ++ rest = (Polish.column b).toList ++ otherRest) :
    a.eraseSpans = b.eraseSpans ∧ rest = otherRest := by
  rw [toList_column, toList_column] at h
  simp only [List.append_assoc, List.append_cancel_left_eq, List.singleton_append] at h
  obtain ⟨hName, hRest⟩ := append_cons_inj hA hB h
  exact ⟨congrArg (Column.mk · .none) (String.toList_inj.1 hName), hRest⟩

private theorem canonical_ne_column {value : Literal} (hRegular : value.IsRegular)
    (column : Column) :
    value.canonical.toList ++ rest ≠ (Polish.column column).toList ++ otherRest := by
  rw [toList_column]
  intro h
  by_cases hText : ∃ s, value = .text s
  · obtain ⟨s, rfl⟩ := hText
    rw [toList_canonical_text] at h
    cases (List.cons.inj h).1
  · obtain ⟨first, others, hValue, hFirst⟩ := canonical_eq_cons hRegular (not_exists.1 hText)
    rw [hValue] at h
    obtain ⟨rfl, -⟩ := List.cons.inj h
    cases hFirst

private theorem operand_append_inj {a b : Operand} (hA : a.IsRegular) (hB : b.IsRegular)
    (hPlainA : a.IsPlain) (hPlainB : b.IsPlain)
    (hDelimitedA : ∀ value, a = .literal value → value.IsDelimitedBy [')'])
    (hDelimitedB : ∀ value, b = .literal value → value.IsDelimitedBy [')'])
    (h : (Polish.operand a).toList ++ ')' :: rest = (Polish.operand b).toList ++ ')' :: otherRest) :
    a.eraseSpans = b.eraseSpans ∧ rest = otherRest := by
  cases a with
  | column column =>
    cases b with
    | column other =>
      obtain ⟨hColumn, hRest⟩ := column_append_inj hPlainA hPlainB h
      exact ⟨congrArg Operand.column hColumn, (List.cons.inj hRest).2⟩
    | literal value => exact absurd h.symm (canonical_ne_column hB column)
  | literal value =>
    cases b with
    | column column => exact absurd h (canonical_ne_column hA column)
    | literal other =>
      obtain ⟨rfl, -, hRest⟩ := canonical_append_inj hA hB (hDelimitedA value rfl)
        (hDelimitedB other rfl) rfl List.mem_cons_self List.mem_cons_self h
      exact ⟨rfl, hRest⟩

private def furtherValues (values : List Literal) : List Char :=
  values.flatMap (fun value => ',' :: value.canonical.toList) ++ [']']

private theorem furtherValues_eq_cons (values : List Literal) (rest : List Char) :
    ∃ c others, furtherValues values ++ rest = c :: others ∧ c ∈ [',', ']'] := by
  cases values with
  | nil => exact ⟨']', rest, rfl, by decide⟩
  | cons value values => exact ⟨',', _, rfl, by decide⟩

private theorem furtherValues_cons (value : Literal) (values : List Literal) :
    furtherValues (value :: values) =
      ',' :: (value.canonical.toList ++ furtherValues values) := by
  rw [furtherValues, List.flatMap_cons, List.cons_append, List.cons_append, List.append_assoc,
    ← furtherValues]

private theorem toList_values (value : Literal) (values : List Literal) :
    (Polish.values (value :: values)).toList =
      '[' :: (value.canonical.toList ++ furtherValues values) := by
  have hComma : (",".intercalate ((value :: values).map Literal.canonical)).toList =
      value.canonical.toList ++ values.flatMap fun value => ',' :: value.canonical.toList := by
    induction values generalizing value with
    | nil => simp
    | cons next values ih =>
      rw [List.map_cons, List.map_cons, String.intercalate_cons_cons, ← List.map_cons,
        String.toList_append, String.toList_append, ih]
      simp
  rw [Polish.values, String.toList_append, String.toList_append, hComma, furtherValues]
  simp

private theorem value_append_inj {values others : List Literal} {a b : Literal}
    (hA : a.IsRegular) (hB : b.IsRegular) (hDelimitedA : a.IsDelimitedBy [',', ']'])
    (hDelimitedB : b.IsDelimitedBy [',', ']'])
    (h : a.canonical.toList ++ (furtherValues values ++ rest) =
      b.canonical.toList ++ (furtherValues others ++ otherRest)) :
    a = b ∧ furtherValues values ++ rest = furtherValues others ++ otherRest := by
  obtain ⟨c, behind, hFurther, hc⟩ := furtherValues_eq_cons values rest
  obtain ⟨d, otherBehind, hOtherFurther, hd⟩ := furtherValues_eq_cons others otherRest
  rw [hFurther, hOtherFurther] at h
  obtain ⟨hEq, rfl, rfl⟩ :=
    canonical_append_inj hA hB hDelimitedA hDelimitedB rfl hc hd h
  exact ⟨hEq, hFurther.trans hOtherFurther.symm⟩

private theorem furtherValues_append_inj {values others : List Literal}
    (hRegular : ∀ value ∈ values, value.IsRegular) (hOther : ∀ value ∈ others, value.IsRegular)
    (hDelimited : ∀ value ∈ values, value.IsDelimitedBy [',', ']'])
    (hOtherDelimited : ∀ value ∈ others, value.IsDelimitedBy [',', ']'])
    (h : furtherValues values ++ rest = furtherValues others ++ otherRest) :
    values = others ∧ rest = otherRest := by
  induction values generalizing others with
  | nil =>
    cases others with
    | nil => exact ⟨rfl, (List.cons.inj h).2⟩
    | cons other others => cases (List.cons.inj h).1
  | cons value values ih =>
    cases others with
    | nil => cases (List.cons.inj h).1
    | cons other others =>
      rw [List.forall_mem_cons] at hRegular hOther hDelimited hOtherDelimited
      simp only [furtherValues_cons, List.cons_append, List.append_assoc, List.cons.injEq,
        true_and] at h
      obtain ⟨rfl, hFurther⟩ := value_append_inj hRegular.1 hOther.1 hDelimited.1
        hOtherDelimited.1 h
      obtain ⟨rfl, hRest⟩ := ih hRegular.2 hOther.2 hDelimited.2 hOtherDelimited.2 hFurther
      exact ⟨rfl, hRest⟩

private theorem values_append_inj {values others : List Literal} (hNonempty : values ≠ [])
    (hOtherNonempty : others ≠ []) (hRegular : ∀ value ∈ values, value.IsRegular)
    (hOther : ∀ value ∈ others, value.IsRegular)
    (hDelimited : ∀ value ∈ values, value.IsDelimitedBy [',', ']'])
    (hOtherDelimited : ∀ value ∈ others, value.IsDelimitedBy [',', ']'])
    (h : (Polish.values values).toList ++ rest = (Polish.values others).toList ++ otherRest) :
    values = others ∧ rest = otherRest := by
  obtain ⟨value, values, rfl⟩ := List.exists_cons_of_ne_nil hNonempty
  obtain ⟨other, others, rfl⟩ := List.exists_cons_of_ne_nil hOtherNonempty
  rw [List.forall_mem_cons] at hRegular hOther hDelimited hOtherDelimited
  simp only [toList_values, List.cons_append, List.append_assoc, List.cons.injEq, true_and] at h
  obtain ⟨rfl, hFurther⟩ := value_append_inj hRegular.1 hOther.1 hDelimited.1 hOtherDelimited.1 h
  obtain ⟨rfl, hRest⟩ := furtherValues_append_inj hRegular.2 hOther.2 hDelimited.2
    hOtherDelimited.2 hFurther
  exact ⟨rfl, hRest⟩

end Conditions

section Filters

namespace Condition

def polishOperator : Condition → String
  | comparison _ operator _ => operator.symbol
  | nullCheck _ negated => if negated then "NOTNULL" else "ISNULL"
  | membership _ negated _ => if negated then "NOTIN" else "IN"

/-- What stands behind the operator of a condition in Polish notation. -/
def polishOperands : Condition → List Char
  | comparison left _ right =>
    (Polish.column left).toList ++ ' ' :: ((Polish.operand right).toList ++ [')'])
  | nullCheck column _ => (Polish.column column).toList ++ [')']
  | membership column _ values =>
    (Polish.column column).toList ++ ' ' :: ((Polish.values values).toList ++ [')'])

/-- A condition in Polish notation is an operator in front of operands. -/
theorem toList_polish (c : Condition) : (Polish.condition c).toList =
    '(' :: (c.polishOperator.toList ++ ' ' :: c.polishOperands) := by
  cases c <;>
    simp [Polish.condition, Polish.operation, polishOperator, polishOperands,
      String.intercalate_cons_cons]

private theorem polishOperator_not_mem (c : Condition) :
    c.polishOperator ∉ ["AND", "OR", "NOT"] ∧ ' ' ∉ c.polishOperator.toList := by
  cases c with
  | comparison left operator right =>
    change operator.symbol ∉ _ ∧ ' ' ∉ operator.symbol.toList
    cases operator <;> decide
  | nullCheck column negated | membership column negated values =>
    rw [polishOperator]
    cases negated <;> decide

private theorem symbol_injective {operator other : Comparison}
    (h : operator.symbol = other.symbol) : operator = other := by
  have hRead := Comparison.ofSymbol?_symbol operator
  rw [h, Comparison.ofSymbol?_symbol, Option.some.injEq] at hRead
  exact hRead.symm

variable {c d : Condition} {rest otherRest : List Char}

private theorem same_kind_of_polishOperator (h : c.polishOperator = d.polishOperator) :
    (∃ left other operator right otherRight, c = comparison left operator right ∧
      d = comparison other operator otherRight) ∨
    (∃ column other negated, c = nullCheck column negated ∧ d = nullCheck other negated) ∨
    ∃ column other negated values others, c = membership column negated values ∧
      d = membership other negated others := by
  cases c with
  | comparison left operator right =>
    cases d with
    | comparison other otherOperator otherRight =>
      obtain rfl := symbol_injective h
      exact .inl ⟨left, other, operator, right, otherRight, rfl, rfl⟩
    | nullCheck _ negated | membership _ negated =>
      cases operator <;> cases negated <;> simp [polishOperator, Comparison.symbol] at h
  | nullCheck column negated =>
    cases d with
    | nullCheck other otherNegated =>
      obtain rfl : negated = otherNegated := by
        cases negated <;> cases otherNegated <;> simp [polishOperator] at h ⊢
      exact .inr (.inl ⟨column, other, negated, rfl, rfl⟩)
    | comparison _ operator =>
      cases operator <;> cases negated <;> simp [polishOperator, Comparison.symbol] at h
    | membership _ otherNegated =>
      cases negated <;> cases otherNegated <;> simp [polishOperator] at h
  | membership column negated values =>
    cases d with
    | membership other otherNegated others =>
      obtain rfl : negated = otherNegated := by
        cases negated <;> cases otherNegated <;> simp [polishOperator] at h ⊢
      exact .inr (.inr ⟨column, other, negated, values, others, rfl, rfl⟩)
    | comparison _ operator =>
      cases operator <;> cases negated <;> simp [polishOperator, Comparison.symbol] at h
    | nullCheck _ otherNegated =>
      cases negated <;> cases otherNegated <;> simp [polishOperator] at h

/-- What can be read back in a condition: its numbers, names and texts. -/
structure IsReadable (c : Condition) : Prop where
  isRegular : c.IsRegular
  isPlain : c.IsPlain
  isDelimited : c.IsDelimited

private theorem polishOperands_append_inj (hC : c.IsReadable) (hD : d.IsReadable)
    (hOperator : c.polishOperator = d.polishOperator)
    (h : c.polishOperands ++ rest = d.polishOperands ++ otherRest) :
    c.eraseSpans = d.eraseSpans ∧ rest = otherRest := by
  obtain ⟨hC, hPlainC, hDelimitedC⟩ := hC
  obtain ⟨hD, hPlainD, hDelimitedD⟩ := hD
  rcases same_kind_of_polishOperator hOperator with
    ⟨left, other, operator, right, otherRight, rfl, rfl⟩ | ⟨column, other, negated, rfl, rfl⟩ |
      ⟨column, other, negated, values, others, rfl, rfl⟩
  · simp only [polishOperands, List.append_assoc, List.cons_append, List.nil_append] at h
    obtain ⟨hLeft, hOperands⟩ := column_append_inj hPlainC.1 hPlainD.1 h
    obtain ⟨hRight, hRest⟩ := operand_append_inj hC hD hPlainC.2 hPlainD.2
      (fun value hValue => by subst hValue; exact hDelimitedC)
      (fun value hValue => by subst hValue; exact hDelimitedD) (List.cons.inj hOperands).2
    refine ⟨?_, hRest⟩
    rw [eraseSpans, eraseSpans, hLeft, hRight]
  · simp only [polishOperands, List.append_assoc, List.cons_append, List.nil_append] at h
    obtain ⟨hColumn, hRest⟩ := column_append_inj hPlainC hPlainD h
    refine ⟨?_, (List.cons.inj hRest).2⟩
    rw [eraseSpans, eraseSpans, hColumn]
  · simp only [polishOperands, List.append_assoc, List.cons_append, List.nil_append] at h
    obtain ⟨hColumn, hOperands⟩ := column_append_inj hPlainC hPlainD h
    obtain ⟨rfl, hRest⟩ := values_append_inj hC.1 hD.1 hC.2 hD.2 hDelimitedC hDelimitedD
      (List.cons.inj hOperands).2
    refine ⟨?_, (List.cons.inj hRest).2⟩
    rw [eraseSpans, eraseSpans, hColumn]

end Condition

namespace Filter

/-- The operator of a filter in Polish notation. -/
def polishOperator : Filter → String
  | condition c _ => c.polishOperator
  | and _ _ _ => "AND"
  | or _ _ _ => "OR"
  | not _ _ => "NOT"

/-- What stands behind the operator of a filter in Polish notation. -/
def polishOperands : Filter → List Char
  | condition c _ => c.polishOperands
  | and left right _ | or left right _ =>
    left.toPolish.toList ++ ' ' :: (right.toPolish.toList ++ [')'])
  | not operand _ => operand.toPolish.toList ++ [')']

/-- A filter in Polish notation is an operator in front of operands. -/
theorem toList_toPolish (filter : Filter) : filter.toPolish.toList =
    '(' :: (filter.polishOperator.toList ++ ' ' :: filter.polishOperands) := by
  have hText := Polish.rendering.toList_render filter
  cases filter with
  | condition c span =>
    change _ = (Polish.condition c).toList ++ [] at hText
    rw [List.append_nil, c.toList_polish] at hText
    exact hText
  | and left right span =>
    change _ = "(AND ".toList ++ (left.toPolish.toList ++ (" ".toList ++
      (right.toPolish.toList ++ (")".toList ++ [])))) at hText
    rw [toPolish, hText]
    simp [polishOperator, polishOperands]
  | or left right span =>
    change _ = "(OR ".toList ++ (left.toPolish.toList ++ (" ".toList ++
      (right.toPolish.toList ++ (")".toList ++ [])))) at hText
    rw [toPolish, hText]
    simp [polishOperator, polishOperands]
  | not operand span =>
    change _ = "(NOT ".toList ++ (operand.toPolish.toList ++ (")".toList ++ [])) at hText
    rw [toPolish, hText]
    simp [polishOperator, polishOperands]

/-- Spans do not show in Polish notation. -/
theorem toPolish_eraseSpans (filter : Filter) : filter.eraseSpans.toPolish = filter.toPolish := by
  apply String.toList_inj.1
  induction filter with
  | condition c span =>
    rw [toList_toPolish, toList_toPolish]
    rcases c with ⟨left, operator, column | value⟩ | ⟨column, negated⟩ | ⟨column, negated, values⟩
    all_goals rfl
  | and left right span ihLeft ihRight | or left right span ihLeft ihRight =>
    rw [toList_toPolish, toList_toPolish, polishOperands, eraseSpans, polishOperands, ihLeft,
      ihRight]
    rfl
  | not operand span ih =>
    rw [toList_toPolish, toList_toPolish, polishOperands, eraseSpans, polishOperands, ih]
    rfl

private theorem blank_not_mem_polishOperator (filter : Filter) :
    ' ' ∉ filter.polishOperator.toList := by
  cases filter with
  | condition c => exact c.polishOperator_not_mem.2
  | and | or | not =>
    rw [polishOperator]
    decide

private theorem kind_eq_of_polishOperator {f g : Filter} (h : f.polishOperator = g.polishOperator) :
    (∃ c span d other, f = condition c span ∧ g = condition d other) ∨
      (∃ left right span first second other, f = and left right span ∧ g = and first second other) ∨
      (∃ left right span first second other, f = or left right span ∧ g = or first second other) ∨
      ∃ operand span inner other, f = not operand span ∧ g = not inner other := by
  have hNot (c : Condition) : c.polishOperator ≠ "AND" ∧ c.polishOperator ≠ "OR" ∧
      c.polishOperator ≠ "NOT" := by
    have hMem := c.polishOperator_not_mem.1
    simpa using hMem
  cases f <;> cases g
  case condition.condition => exact .inl ⟨_, _, _, _, rfl, rfl⟩
  case and.and => exact .inr (.inl ⟨_, _, _, _, _, _, rfl, rfl⟩)
  case or.or => exact .inr (.inr (.inl ⟨_, _, _, _, _, _, rfl, rfl⟩))
  case not.not => exact .inr (.inr (.inr ⟨_, _, _, _, rfl, rfl⟩))
  case condition.and c _ _ _ _ => exact absurd h (hNot c).1
  case condition.or c _ _ _ _ => exact absurd h (hNot c).2.1
  case condition.not c _ _ _ => exact absurd h (hNot c).2.2
  case and.condition c _ => exact absurd h.symm (hNot c).1
  case or.condition c _ => exact absurd h.symm (hNot c).2.1
  case not.condition c _ => exact absurd h.symm (hNot c).2.2
  all_goals simp [polishOperator] at h

variable {f g : Filter} {rest otherRest : List Char}

/-- A regular filter can be read back if its names are plain and its texts are delimited. -/
theorem isReadable_of_mem_conditions (hRegular : f.IsRegular) (hPlain : f.IsPlain)
    (hDelimited : f.IsDelimited) : ∀ c ∈ f.conditions, c.IsReadable :=
  fun c hc => ⟨hRegular.of_mem_conditions c hc, hPlain c hc, hDelimited c hc⟩

private theorem operator_and_operands_eq
    (h : f.toPolish.toList ++ rest = g.toPolish.toList ++ otherRest) :
    f.polishOperator = g.polishOperator ∧
      f.polishOperands ++ rest = g.polishOperands ++ otherRest := by
  rw [toList_toPolish, toList_toPolish] at h
  simp only [List.cons_append, List.append_assoc, List.cons.injEq, true_and] at h
  obtain ⟨hOperator, hOperands⟩ := append_cons_inj f.blank_not_mem_polishOperator
    g.blank_not_mem_polishOperator h
  exact ⟨String.toList_inj.1 hOperator, hOperands⟩

/-- Filters that can be read back are told apart by their Polish notations, whatever follows. -/
theorem toPolish_append_inj (hF : ∀ c ∈ f.conditions, c.IsReadable)
    (hG : ∀ c ∈ g.conditions, c.IsReadable)
    (h : f.toPolish.toList ++ rest = g.toPolish.toList ++ otherRest) :
    f.eraseSpans = g.eraseSpans ∧ rest = otherRest := by
  induction f generalizing g rest otherRest with
  | condition c span =>
    obtain ⟨hOperator, hOperands⟩ := operator_and_operands_eq h
    obtain ⟨_, _, d, other, ⟨⟩, rfl⟩ | ⟨_, _, _, _, _, _, ⟨⟩, -⟩ | ⟨_, _, _, _, _, _, ⟨⟩, -⟩ |
      ⟨_, _, _, _, ⟨⟩, -⟩ := kind_eq_of_polishOperator hOperator
    obtain ⟨hCondition, hRest⟩ := Condition.polishOperands_append_inj
      (hF c List.mem_cons_self) (hG d List.mem_cons_self) hOperator hOperands
    exact ⟨congrArg (Filter.condition · .none) hCondition, hRest⟩
  | and left right span ihLeft ihRight | or left right span ihLeft ihRight =>
    obtain ⟨hOperator, hOperands⟩ := operator_and_operands_eq h
    obtain ⟨_, _, _, _, ⟨⟩, -⟩ | ⟨_, _, _, first, second, other, ⟨⟩, rfl⟩ |
      ⟨_, _, _, first, second, other, ⟨⟩, rfl⟩ | ⟨_, _, _, _, ⟨⟩, -⟩ :=
      kind_eq_of_polishOperator hOperator
    rw [conditions, List.forall_mem_append] at hF hG
    simp only [polishOperands, List.append_assoc, List.cons_append, List.nil_append] at hOperands
    obtain ⟨hLeft, hOthers⟩ := ihLeft hF.1 hG.1 hOperands
    obtain ⟨hRight, hRest⟩ := ihRight hF.2 hG.2 (List.cons.inj hOthers).2
    refine ⟨?_, (List.cons.inj hRest).2⟩
    rw [eraseSpans, eraseSpans, hLeft, hRight]
  | not operand span ih =>
    obtain ⟨hOperator, hOperands⟩ := operator_and_operands_eq h
    obtain ⟨_, _, _, _, ⟨⟩, -⟩ | ⟨_, _, _, _, _, _, ⟨⟩, -⟩ | ⟨_, _, _, _, _, _, ⟨⟩, -⟩ |
      ⟨_, _, inner, other, ⟨⟩, rfl⟩ := kind_eq_of_polishOperator hOperator
    simp only [polishOperands, List.append_assoc, List.nil_append, List.cons_append] at hOperands
    rw [conditions] at hF hG
    obtain ⟨hOperand, hRest⟩ := ih hF hG hOperands
    refine ⟨?_, (List.cons.inj hRest).2⟩
    rw [eraseSpans, eraseSpans, hOperand]

end Filter

end Filters

end RowFilter
