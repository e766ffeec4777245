import RowFilter.Decimal.Layout
import RowFilter.Proofs.Decimal.Reading
import RowFilter.Proofs.Decimal.Spelling

/-! The texts of numbers as spellings. Each layout of a decimal number spells
it with its own significand and exponent, except for whole numbers, which get
a zero behind a point. -/

namespace RowFilter

section Digits

private theorem appendDigits_eq (n : Nat) (digits : List Char) :
    appendDigits n digits = Nat.ofDigitChars 10 digits n :=
  Nat.ofDigitChars_eq_foldl.symm

/-- The digits of a number spell the number. -/
theorem digitsValue_toDigits (n : Nat) : digitsValue (Nat.toDigits 10 n) = n := by
  rw [digitsValue_eq_appendDigits, appendDigits_eq, Nat.ofDigitChars_ten_toDigits]

/-- The digits of a natural number are digits. -/
theorem isDigits_toDigits (n : Nat) : IsDigits (Nat.toDigits 10 n) :=
  fun _ hc => Nat.isDigit_of_mem_toDigits (by decide) (by decide) hc

private theorem isDigits_zeros (n : Nat) : IsDigits (List.replicate n '0') := by
  intro c hc
  rw [List.eq_of_mem_replicate hc]
  rfl

theorem IsDigits.append {first second : List Char} (hFirst : IsDigits first)
    (hSecond : IsDigits second) : IsDigits (first ++ second) :=
  List.forall_mem_append.2 ⟨hFirst, hSecond⟩

theorem IsDigits.take {digits : List Char} (h : IsDigits digits) (n : Nat) :
    IsDigits (digits.take n) :=
  fun c hc => h c (List.mem_of_mem_take hc)

theorem IsDigits.drop {digits : List Char} (h : IsDigits digits) (n : Nat) :
    IsDigits (digits.drop n) :=
  fun c hc => h c (List.mem_of_mem_drop hc)

/-- Zeros in front of digits do not count. -/
theorem digitsValue_zeros_append (n : Nat) (digits : List Char) :
    digitsValue (List.replicate n '0' ++ digits) = digitsValue digits := by
  simp only [digitsValue_eq_appendDigits, appendDigits_eq, Nat.ofDigitChars_append,
    Nat.ofDigitChars_replicate_zero, Nat.mul_zero]

/-- Zeros behind digits multiply by powers of ten. -/
theorem digitsValue_append_zeros (n : Nat) (digits : List Char) :
    digitsValue (digits ++ List.replicate n '0') = digitsValue digits * Nat.pow 10 n := by
  simp only [digitsValue_eq_appendDigits, appendDigits_eq, Nat.ofDigitChars_append,
    Nat.ofDigitChars_replicate_zero]
  exact Nat.mul_comm _ _

/-- A number has no more decimal digits than binary ones. -/
theorem length_toDigits_le (n : Nat) : (Nat.toDigits 10 n).length ≤ n.log2 + 1 := by
  rw [Nat.length_toDigits_le_iff (by decide) (Nat.succ_pos _)]
  exact Nat.lt_of_lt_of_le Nat.lt_log2_self (Nat.pow_le_pow_left (by decide) _)

private theorem le_appendDigits (n : Nat) (digits : List Char) : n ≤ appendDigits n digits := by
  induction digits generalizing n with
  | nil => exact Nat.le_refl n
  | cons c digits ih =>
    have hStep := ih (10 * n + digitValue c)
    change n ≤ appendDigits (10 * n + digitValue c) digits
    omega

/-- Exponents below ten times the bound count in full: a digit is left out only
behind an exponent that has come to the bound. -/
theorem foldl_appendExponentDigit {n : Nat} {digits : List Char}
    (h : appendDigits n digits < 10 * Numeral.exponentBound) :
    digits.foldl Numeral.appendExponentDigit n = appendDigits n digits := by
  induction digits generalizing n with
  | nil => rfl
  | cons c digits ih =>
    have hSmall := le_appendDigits (10 * n + digitValue c) digits
    change appendDigits (10 * n + digitValue c) digits < _ at h
    rw [List.foldl_cons, Numeral.appendExponentDigit, if_pos (by omega)]
    exact ih h

/-- Exponents from the bound on count as at least the bound. -/
theorem exponentBound_le_foldl {n : Nat} {digits : List Char}
    (h : Numeral.exponentBound ≤ appendDigits n digits) :
    Numeral.exponentBound ≤ digits.foldl Numeral.appendExponentDigit n := by
  induction digits generalizing n with
  | nil => exact h
  | cons c digits ih =>
    rw [List.foldl_cons]
    apply ih
    by_cases hSmall : n < Numeral.exponentBound
    · rw [Numeral.appendExponentDigit, if_pos hSmall]
      exact h
    · have hLe := le_appendDigits n digits
      rw [Numeral.appendExponentDigit, if_neg hSmall]
      omega

end Digits

def Sign.ofBool (negative : Bool) : Sign := if negative then minus else none

private theorem Sign.negative_ofBool (negative : Bool) :
    (Sign.ofBool negative).negative = negative := by
  cases negative <;> rfl

theorem toList_toString_int (n : Int) :
    (toString n).toList = (Sign.ofBool (n < 0)).text ++ Nat.toDigits 10 n.natAbs := by
  rw [Int.toString_eq_repr, Int.repr_eq_if]
  split
  · next h =>
    rw [decide_eq_false (Int.not_lt.2 h), Nat.toList_repr]
    have hAbs : n.toNat = n.natAbs := by omega
    rw [hAbs]
    rfl
  · next h =>
    rw [decide_eq_true (Int.not_le.1 h), String.toList_append, Nat.toList_repr]
    have hAbs : (-n).toNat = n.natAbs := by omega
    rw [hAbs]
    rfl

/-- What a spelling with a point or an exponent says about a decimal number. -/
structure Spelling.Spells (spelling : Spelling) (negative : Bool) (x : Scientific) : Prop where
  negative_eq : spelling.numeral.negative = negative
  isIntegral_eq : spelling.numeral.isIntegral = false
  value_eq :
    (spelling.numeral.significand = x.significand ∧ spelling.numeral.scale = x.exponent) ∨
      (0 ≤ x.exponent ∧
        spelling.numeral.significand = x.significand * Nat.pow 10 (x.exponent.toNat + 1) ∧
        spelling.numeral.scale = -1)

namespace FloatLayout

variable {x : Scientific}

private theorem spells_whole (sign : Sign) (hExponent : 0 ≤ x.exponent) :
    ∃ spelling : Spelling, sign.text ++
      (positional (Nat.toDigits 10 x.significand) x.exponent).toList = spelling.text ∧
      spelling.Spells sign.negative x := by
  have hDigits := isDigits_toDigits x.significand
  refine ⟨⟨sign, Nat.toDigits 10 x.significand ++ List.replicate x.exponent.toNat '0', some ['0'],
    none, hDigits.append (isDigits_zeros _), isDigits_zeros 1,
    .inr (List.cons_ne_nil _ _)⟩, ?_, rfl, rfl, .inr ⟨hExponent, ?_, rfl⟩⟩
  · rw [positional, if_pos hExponent, String.toList_append, String.toList_ofList]
    rfl
  · change digitsValue (Nat.toDigits 10 x.significand ++ List.replicate x.exponent.toNat '0' ++
      List.replicate 1 '0') = _
    rw [List.append_assoc, List.replicate_append_replicate, digitsValue_append_zeros, digitsValue_toDigits]

private theorem spells_split (sign : Sign) (hExponent : ¬0 ≤ x.exponent)
    (hCount : 0 < ((Nat.toDigits 10 x.significand).length : Int) + x.exponent) :
    ∃ spelling : Spelling, sign.text ++
      (positional (Nat.toDigits 10 x.significand) x.exponent).toList = spelling.text ∧
      spelling.Spells sign.negative x := by
  have hDigits := isDigits_toDigits x.significand
  have hValue := digitsValue_toDigits x.significand
  generalize hEq : Nat.toDigits 10 x.significand = digits at *
  generalize hCountEq : ((digits.length : Int) + x.exponent).toNat = count
  have hWhole : digits.take count ≠ [] := by
    intro h
    have hLength := congrArg List.length h
    rw [List.length_take, List.length_nil] at hLength
    omega
  refine ⟨⟨sign, digits.take count, some (digits.drop count), none, hDigits.take _,
    hDigits.drop _, .inl hWhole⟩, ?_, rfl, rfl, .inl ⟨?_, ?_⟩⟩
  · rw [positional, if_neg hExponent, if_pos hCount, hCountEq, String.toList_append,
      String.toList_append, String.toList_ofList, String.toList_ofList, List.append_assoc]
    simp [Spelling.text, fractionText, exponentText]
  · change digitsValue (digits.take count ++ digits.drop count) = _
    rw [List.take_append_drop, hValue]
  · change (0 : Int) - ((digits.drop count).length : Int) = x.exponent
    rw [List.length_drop]
    omega

private theorem spells_fraction (sign : Sign) (hExponent : ¬0 ≤ x.exponent)
    (hCount : ¬0 < ((Nat.toDigits 10 x.significand).length : Int) + x.exponent) :
    ∃ spelling : Spelling, sign.text ++
      (positional (Nat.toDigits 10 x.significand) x.exponent).toList = spelling.text ∧
      spelling.Spells sign.negative x := by
  have hDigits := isDigits_toDigits x.significand
  have hValue := digitsValue_toDigits x.significand
  generalize hEq : Nat.toDigits 10 x.significand = digits at *
  generalize hZeros : (-((digits.length : Int) + x.exponent)).toNat = zeros
  refine ⟨⟨sign, ['0'], some (List.replicate zeros '0' ++ digits), none, isDigits_zeros 1,
    (isDigits_zeros _).append hDigits, .inl (List.cons_ne_nil _ _)⟩, ?_, rfl, rfl, .inl ⟨?_, ?_⟩⟩
  · rw [positional, if_neg hExponent, if_neg hCount, hZeros, String.toList_append,
      String.toList_ofList]
    simp [Spelling.text, fractionText, exponentText]
  · change digitsValue (List.replicate 1 '0' ++ (List.replicate zeros '0' ++ digits)) = _
    rw [digitsValue_zeros_append, digitsValue_zeros_append, hValue]
  · change (0 : Int) - ((List.replicate zeros '0' ++ digits).length : Int) = x.exponent
    rw [List.length_append, List.length_replicate]
    omega

private def exponentSpelling (mark : Sign) (exponent : Int) : ExponentSpelling :=
  ⟨'e', if exponent < 0 then .minus else mark, Nat.toDigits 10 exponent.natAbs, .inl rfl,
    isDigits_toDigits _, Nat.toDigits_ne_nil⟩

private theorem countedExponent_spelling {mark : Sign} (hMark : mark.negative = false)
    {exponent : Int} (h : exponent.natAbs < Numeral.exponentBound) :
    Numeral.countedExponent (exponentSpelling mark exponent).signedDigits = exponent := by
  have hValue : appendDigits 0 (Nat.toDigits 10 exponent.natAbs) = exponent.natAbs := by
    rw [appendDigits_eq, Nat.ofDigitChars_ten_toDigits]
  change SignedDigits.applySign (if exponent < 0 then Sign.minus else mark).negative
    ((Nat.toDigits 10 exponent.natAbs).foldl Numeral.appendExponentDigit 0) = exponent
  rw [foldl_appendExponentDigit (by omega), hValue, SignedDigits.applySign]
  by_cases hNegative : exponent < 0
  · rw [if_pos hNegative, Sign.negative, if_pos rfl]
    omega
  · rw [if_neg hNegative, hMark, if_neg Bool.false_ne_true]
    omega

private theorem toList_exponent (mark : Sign) (exponent : Int) :
    (if exponent < 0 then "" else String.ofList mark.text).toList ++ (toString exponent).toList =
      (if exponent < 0 then Sign.minus else mark).text ++ Nat.toDigits 10 exponent.natAbs := by
  rw [toList_toString_int]
  by_cases hNegative : exponent < 0 <;> simp [hNegative, Sign.ofBool, Sign.text]

variable {layout : FloatLayout} {mark : Sign}

private theorem toList_exponential (hLayout : layout.exponentSign = String.ofList mark.text)
    (digits : List Char) (exponent : Int) : (layout.exponential digits exponent).toList =
      digits.take 1 ++ ((if digits.length ≤ 1 then [] else '.' :: digits.drop 1) ++
        (exponentSpelling mark (exponent + digits.length - 1)).text) := by
  have hExponent := toList_exponent mark (exponent + digits.length - 1)
  rw [exponential, hLayout]
  simp only [String.toList_append, String.toList_ofList, List.append_assoc, hExponent]
  congr 2
  split
  · rfl
  · simp

private theorem spells_exponential (hLayout : layout.exponentSign = String.ofList mark.text)
    (hMark : mark.negative = false) (sign : Sign)
    (hLeading : (x.exponent + (Nat.toDigits 10 x.significand).length - 1).natAbs <
      Numeral.exponentBound) :
    ∃ spelling : Spelling, sign.text ++
      (layout.exponential (Nat.toDigits 10 x.significand) x.exponent).toList = spelling.text ∧
      spelling.Spells sign.negative x := by
  have hDigits := isDigits_toDigits x.significand
  have hValue := digitsValue_toDigits x.significand
  have hNonempty : Nat.toDigits 10 x.significand ≠ [] := Nat.toDigits_ne_nil
  generalize hEq : Nat.toDigits 10 x.significand = digits at *
  have hLength : digits.length ≠ 0 := fun h => hNonempty (List.length_eq_zero_iff.1 h)
  have hText := toList_exponential hLayout digits x.exponent
  have hCounted := countedExponent_spelling hMark hLeading
  by_cases hSingle : digits.length ≤ 1
  · have hTake : digits.take 1 = digits := List.take_of_length_le hSingle
    refine ⟨⟨sign, digits, none, some (exponentSpelling mark (x.exponent + digits.length - 1)),
      hDigits, nofun, .inl hNonempty⟩, ?_, rfl, rfl, .inl ⟨?_, ?_⟩⟩
    · rw [hText, if_pos hSingle, hTake]
      rfl
    · change digitsValue (digits ++ []) = _
      rw [List.append_nil, hValue]
    · change Numeral.countedExponent _ - ((0 : Nat) : Int) = x.exponent
      rw [hCounted]
      omega
  · have hWhole : digits.take 1 ≠ [] := by
      intro h
      have hTake := congrArg List.length h
      rw [List.length_take, List.length_nil] at hTake
      omega
    refine ⟨⟨sign, digits.take 1, some (digits.drop 1),
      some (exponentSpelling mark (x.exponent + digits.length - 1)), hDigits.take 1,
      hDigits.drop 1, .inl hWhole⟩, ?_, rfl, rfl, .inl ⟨?_, ?_⟩⟩
    · rw [hText, if_neg hSingle]
      rfl
    · change digitsValue (digits.take 1 ++ digits.drop 1) = _
      rw [List.take_append_drop, hValue]
    · change Numeral.countedExponent _ - ((digits.drop 1).length : Int) = x.exponent
      rw [hCounted, List.length_drop]
      omega

private theorem exists_spells (hLayout : layout.exponentSign = String.ofList mark.text)
    (hMark : mark.negative = false) (sign : Sign)
    (hLeading : (x.exponent + (Nat.toDigits 10 x.significand).length - 1).natAbs <
      Numeral.exponentBound) :
    ∃ spelling : Spelling, sign.text ++ (layout.scientific x).toList = spelling.text ∧
      spelling.Spells sign.negative x := by
  rw [scientific]
  split
  · by_cases hExponent : 0 ≤ x.exponent
    · exact spells_whole sign hExponent
    · by_cases hCount : 0 < ((Nat.toDigits 10 x.significand).length : Int) + x.exponent
      · exact spells_split sign hExponent hCount
      · exact spells_fraction sign hExponent hCount
  · exact spells_exponential hLayout hMark sign hLeading

open Binary64

private theorem natAbs_leading_lt {magnitude : Nat} (tie : Tie) (hPos : 0 < magnitude)
    (hFinite : magnitude < infinity) :
    ((shortest tie magnitude).exponent +
      (Nat.toDigits 10 (shortest tie magnitude).significand).length - 1).natAbs <
      Numeral.exponentBound := by
  obtain ⟨hLower, hUpper, hLog⟩ := shortest_bounds tie hPos hFinite
  have hLength := length_toDigits_le (shortest tie magnitude).significand
  simp only [Numeral.exponentBound]
  omega

private theorem ofDecimal_of_spells {x : Binary64} {spelling : Spelling} {tie : Tie}
    (hFinite : x.isFinite = true) (hPos : 0 < x.magnitude)
    (h : spelling.Spells x.negative (shortest tie x.magnitude)) :
    ofDecimal spelling.numeral.negative spelling.numeral.significand spelling.numeral.scale = x := by
  have hLt := of_decide_eq_true hFinite
  have hContains := shortest_contains tie hPos hLt
  rcases h.value_eq with ⟨hSignificand, hScale⟩ | ⟨hExponent, hSignificand, hScale⟩
  · rw [h.negative_eq, hSignificand, hScale, ofDecimal_shortest tie hFinite hPos]
  · rw [h.negative_eq, hSignificand, hScale,
      ofDecimal_tenths x.negative hExponent hContains, ofMagnitude_magnitude hFinite]

/-- The text of a finite floating-point number is a spelling with a point or an exponent, which is
read as the number. -/
theorem exists_spelling (layout : FloatLayout) (mark : Sign)
    (hLayout : layout.exponentSign = String.ofList mark.text) (hMark : mark.negative = false)
    {x : Binary64} (hFinite : x.isFinite = true) :
    ∃ spelling : Spelling, (layout.finite x).toList = spelling.text ∧
      spelling.numeral.isIntegral = false ∧
      ofDecimal spelling.numeral.negative spelling.numeral.significand spelling.numeral.scale =
        x := by
  have hText : (layout.finite x).toList = (Sign.ofBool x.negative).text ++
      (if x.magnitude = 0 then "0.0"
        else layout.scientific (shortest layout.tie x.magnitude)).toList := by
    rw [finite]
    cases x.negative <;> split <;> simp [Sign.ofBool, Sign.text]
  by_cases hZero : x.magnitude = 0
  · rw [if_pos hZero] at hText
    refine ⟨⟨.ofBool x.negative, ['0'], some ['0'], none, isDigits_zeros 1, isDigits_zeros 1,
      .inl (List.cons_ne_nil _ _)⟩, hText, rfl, ?_⟩
    have hSelf : ofMagnitude x.negative 0 = x := by
      rw [← hZero, ofMagnitude_magnitude hFinite]
    have hSignificand : digitsValue ['0', '0'] = 0 := by decide
    change ofDecimal (Sign.ofBool x.negative).negative (digitsValue ['0', '0']) (-1) = x
    rw [Sign.negative_ofBool, hSignificand, ofDecimal, if_pos rfl, hSelf]
  · rw [if_neg hZero] at hText
    have hPos := Nat.pos_of_ne_zero hZero
    obtain ⟨spelling, hSpelling, hSpells⟩ := exists_spells hLayout hMark (.ofBool x.negative)
      (natAbs_leading_lt layout.tie hPos (of_decide_eq_true hFinite))
    rw [Sign.negative_ofBool] at hSpells
    exact ⟨spelling, hText.trans hSpelling, hSpells.isIntegral_eq,
      ofDecimal_of_spells hFinite hPos hSpells⟩

end FloatLayout

/-- The text of an integer is a spelling of digits, which is read as the integer. -/
theorem exists_spelling_toString (n : Int) :
    ∃ spelling : Spelling, (toString n).toList = spelling.text ∧
      spelling.numeral.isIntegral = true ∧ spelling.numeral.integer = n := by
  refine ⟨⟨.ofBool (n < 0), Nat.toDigits 10 n.natAbs, none, none, isDigits_toDigits _, nofun,
    .inl Nat.toDigits_ne_nil⟩, ?_, rfl, ?_⟩
  · rw [toList_toString_int]
    simp [Spelling.text, fractionText, exponentText]
  · change SignedDigits.applySign (Sign.ofBool (n < 0)).negative
      (digitsValue (Nat.toDigits 10 n.natAbs)) = n
    rw [digitsValue_toDigits, Sign.negative_ofBool, SignedDigits.applySign]
    split
    · next h =>
      have hLt := of_decide_eq_true h
      omega
    · next h =>
      have hLe := of_decide_eq_false (Bool.eq_false_iff.2 h)
      omega

end RowFilter
