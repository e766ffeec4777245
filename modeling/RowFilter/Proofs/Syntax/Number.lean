import RowFilter.Proofs.Decimal.Spelling
import RowFilter.Proofs.Grammar.Atomic
import RowFilter.Syntax.Rule

/-! The rule of numbers takes spellings. Whatever it takes is the text of a
`Spelling`, and it takes a spelling wherever the number ends, which is where
no character of a name follows and no point that the number lacks. -/

namespace RowFilter

open Grammar Text

variable {length : Nat} {text taken rest : List Char}

/-- A text that begins with a given character. -/
theorem takes_character (c : Char) {word : String} (hWord : word.toList = [c]) :
    filterGrammar.Takes length (.literal word) text taken rest ↔
      taken = [c] ∧ text = c :: rest := by
  rw [takes_literal, hWord]
  rfl

/-- A character fails exactly where it does not stand. -/
theorem fails_character (c : Char) {word : String} (hWord : word.toList = [c]) :
    filterGrammar.Fails length (.literal word) text ↔ StopsAt (· = c) text := by
  rw [fails_literal, hWord]
  cases text with
  | nil => simp [takeAll?]
  | cons a text =>
    by_cases h : c = a
    · subst h
      simp [takeAll?]
    · simp [takeAll?, h, Ne.symm h]

/-- A class fails exactly where none of its characters stands. -/
theorem fails_class {accepts : Char → Bool} :
    filterGrammar.Fails length (.oneOf accepts) text ↔ StopsAt accepts text := by
  rw [fails_oneOf]
  cases text with
  | nil => simp [takeAll?]
  | cons c text => cases h : accepts c <;> simp [takeAll?, h]

/-- The end of a word: no character of a name follows. -/
theorem takes_unless_nameChar :
    filterGrammar.Takes length (.unless (.rule .nameChar)) text taken rest ↔
      StopsAt isNameChar text ∧ taken = [] ∧ rest = text := by
  rw [takes_unless, fails_rule]
  change filterGrammar.Fails length (.oneOf isNameChar) text ∧ _ ↔ _
  rw [fails_class]

/-- Digits are taken up to the first other character. -/
theorem takes_digits :
    filterGrammar.Takes length (.rule .digits) text taken rest ↔
      taken = text.takeWhile Char.isDigit ∧ rest = text.dropWhile Char.isDigit ∧ taken ≠ [] := by
  rw [takes_rule]
  exact takes_many1_oneOf

theorem fails_digits :
    filterGrammar.Fails length (.rule .digits) text ↔ text.takeWhile Char.isDigit = [] := by
  rw [fails_rule]
  exact fails_many1_oneOf

private theorem takes_digits_append (hDigits : IsDigits taken) (hNonempty : taken ≠ [])
    (hRest : StopsAt Char.isDigit rest) :
    filterGrammar.Takes length (.rule .digits) (taken ++ rest) taken rest :=
  takes_digits.2 ⟨(hRest.takeWhile_append hDigits).symm, (hRest.dropWhile_append hDigits).symm,
    hNonempty⟩

section Sign

private theorem exists_sign_of_takes
    (h : filterGrammar.Takes length (.optional (.rule .sign)) text taken rest) :
    ∃ sign : Sign, taken = sign.text := by
  rcases takes_optional.1 h with h | ⟨-, rfl, -⟩
  · rcases takes_choice.1 (takes_rule.1 h) with h | ⟨-, h⟩
    · exact ⟨.plus, ((takes_character '+' rfl).1 h).1⟩
    · exact ⟨.minus, ((takes_character '-' rfl).1 h).1⟩
  · exact ⟨.none, rfl⟩

private theorem takes_sign (sign : Sign) (hRest : StopsAt (fun c => c = '+' || c = '-') rest) :
    filterGrammar.Takes length (.optional (.rule .sign)) (sign.text ++ rest) sign.text rest := by
  rw [takes_optional, takes_rule]
  cases sign with
  | plus => exact .inl (takes_choice.2 (.inl ((takes_character '+' rfl).2 ⟨rfl, rfl⟩)))
  | minus =>
    refine .inl (takes_choice.2 (.inr ⟨(fails_character '+' rfl).2 ?_, ?_⟩))
    · rfl
    · exact (takes_character '-' rfl).2 ⟨rfl, rfl⟩
  | none =>
    refine .inr ⟨fails_rule.2 (fails_choice.2 ⟨?_, ?_⟩), rfl, rfl⟩
    · exact (fails_character '+' rfl).2 (hRest.mono fun c hc => by rw [hc]; rfl)
    · exact (fails_character '-' rfl).2 (hRest.mono fun c hc => by rw [hc, Bool.or_true])

end Sign

section Exponent

private theorem sameLetter_e {c : Char} : sameLetter 'e' c = true ↔ c = 'e' ∨ c = 'E' := by
  constructor
  · intro h
    have hLower : 'e' = c.toLower := of_decide_eq_true h
    by_cases hUpper : c.val ≥ 'A'.val ∧ c.val ≤ 'Z'.val
    · right
      delta Char.toLower at hLower
      rw [dif_pos hUpper] at hLower
      have hNat : (101 : Nat) = (c.val + 32).toNat := congrArg Char.toNat hLower
      have hLe : c.val.toNat ≤ 90 := UInt32.le_iff_toNat_le.1 hUpper.2
      rw [UInt32.toNat_add, show (32 : UInt32).toNat = 32 from rfl] at hNat
      have hVal : c.val.toNat = 69 := by omega
      exact Char.ext (UInt32.toNat_inj.1 hVal)
    · left
      delta Char.toLower at hLower
      rw [dif_neg hUpper] at hLower
      exact hLower.symm
  · rintro (rfl | rfl) <;> decide

private theorem takes_mark :
    filterGrammar.Takes length (.word "e") text taken rest ↔
      ∃ c, (c = 'e' ∨ c = 'E') ∧ taken = [c] ∧ text = c :: rest := by
  rw [takes_word, show "e".toList = ['e'] from rfl]
  cases text with
  | nil => simp [takeAll?]
  | cons c text =>
    simp only [List.map_cons, List.map_nil, takeAll?, ← sameLetter_e]
    constructor
    · intro h
      split at h
      · next hMark =>
        obtain ⟨rfl, rfl⟩ := Prod.mk.inj (Option.some.inj h)
        exact ⟨c, hMark, rfl, rfl⟩
      · cases h
    · rintro ⟨_, hMark, rfl, hText⟩
      cases hText
      rw [if_pos hMark]
      rfl

private theorem exists_exponent_of_takes
    (h : filterGrammar.Takes length (.optional (.rule .exponent)) text taken rest) :
    ∃ exponent : Option ExponentSpelling, taken = exponentText exponent ∧
      (exponent = none → rest = text) := by
  rcases takes_optional.1 h with h | ⟨-, rfl, rfl⟩
  · obtain ⟨_, _, _, hMark, hOthers, rfl⟩ := takes_seq.1 (takes_rule.1 h)
    obtain ⟨_, _, _, hSign, hDigits, rfl⟩ := takes_seq.1 hOthers
    obtain ⟨c, hc, rfl, -⟩ := takes_mark.1 hMark
    obtain ⟨sign, rfl⟩ := exists_sign_of_takes hSign
    obtain ⟨rfl, -, hNonempty⟩ := takes_digits.1 hDigits
    exact ⟨some ⟨c, sign, _, hc, isDigits_takeWhile _, hNonempty⟩, rfl, nofun⟩
  · exact ⟨none, rfl, fun _ => rfl⟩

private theorem takes_exponent (exponent : Option ExponentSpelling)
    (hRest : StopsAt isNameChar rest) :
    filterGrammar.Takes length (.optional (.rule .exponent)) (exponentText exponent ++ rest)
      (exponentText exponent) rest := by
  rw [takes_optional]
  cases exponent with
  | none =>
    refine .inr ⟨fails_rule.2 (fails_seq.2 (.inl ?_)), rfl, rfl⟩
    cases rest with
    | nil => exact fails_word.2 rfl
    | cons c rest =>
      have hMark : sameLetter 'e' c = false := by
        apply Bool.eq_false_iff.2
        intro hSame
        rcases sameLetter_e.1 hSame with rfl | rfl <;> cases hRest
      exact fails_word.2 (if_neg (Bool.eq_false_iff.1 hMark))
  | some exponent =>
    have hStops : StopsAt Char.isDigit rest := hRest.mono fun c hc => by
      simp [isNameChar, Char.isAlphanum, hc]
    have hSplit : exponentText (some exponent) ++ rest =
        exponent.mark :: (exponent.sign.text ++ (exponent.digits ++ rest)) := by
      simp [exponentText, ExponentSpelling.text]
    have hSign : StopsAt (fun c => c = '+' || c = '-') (exponent.digits ++ rest) :=
      exponent.isDigits.stopsAt_sign fun hNil => absurd hNil exponent.digits_ne_nil
    have hDigits : filterGrammar.Takes length (.rule .digits) (exponent.digits ++ rest)
        exponent.digits rest := takes_digits_append exponent.isDigits exponent.digits_ne_nil hStops
    rw [hSplit]
    exact .inl (takes_rule.2 (takes_seq.2 ⟨[exponent.mark], _, _,
      takes_mark.2 ⟨_, exponent.mark_eq, rfl, rfl⟩,
      takes_seq.2 ⟨_, _, _, takes_sign exponent.sign hSign, hDigits, rfl⟩, rfl⟩))

end Exponent

section Mantissa

private def mantissa : Expr Rule :=
  .choice (.seq (.rule .digits) (.optional (.seq (.literal ".") (.optional (.rule .digits)))))
    (.seq (.literal ".") (.rule .digits))

private theorem exists_fraction_of_takes
    (h : filterGrammar.Takes length
      (.optional (.seq (.literal ".") (.optional (.rule .digits)))) text taken rest) :
    ∃ fraction, IsDigits (fraction.getD []) ∧ taken = fractionText fraction ∧
      (fraction = none → StopsAt (· = '.') rest) := by
  rcases takes_optional.1 h with h | ⟨hNone, rfl, rfl⟩
  · obtain ⟨_, _, _, hPoint, hDigits, rfl⟩ := takes_seq.1 h
    obtain ⟨rfl, -⟩ := (takes_character '.' rfl).1 hPoint
    rcases takes_optional.1 hDigits with hDigits | ⟨-, rfl, -⟩
    · obtain ⟨rfl, -, -⟩ := takes_digits.1 hDigits
      exact ⟨some _, isDigits_takeWhile _, rfl, nofun⟩
    · exact ⟨some [], nofun, rfl, nofun⟩
  · refine ⟨none, nofun, rfl, fun _ => ?_⟩
    rcases fails_seq.1 hNone with hPoint | ⟨_, _, -, hDigits⟩
    · exact (fails_character '.' rfl).1 hPoint
    · cases hDigits

private theorem exists_mantissa_of_takes
    (h : filterGrammar.Takes length mantissa text taken rest) :
    ∃ whole fraction, IsDigits whole ∧ IsDigits (fraction.getD []) ∧
      (whole ≠ [] ∨ fraction.getD [] ≠ []) ∧ taken = whole ++ fractionText fraction ∧
      (fraction = none → StopsAt (· = '.') rest) := by
  rcases takes_choice.1 h with h | ⟨-, h⟩
  · obtain ⟨_, _, _, hWhole, hFraction, rfl⟩ := takes_seq.1 h
    obtain ⟨rfl, -, hNonempty⟩ := takes_digits.1 hWhole
    obtain ⟨fraction, hDigits, rfl, hPoint⟩ := exists_fraction_of_takes hFraction
    exact ⟨_, fraction, isDigits_takeWhile _, hDigits, .inl hNonempty, rfl, hPoint⟩
  · obtain ⟨_, _, _, hPoint, hDigits, rfl⟩ := takes_seq.1 h
    obtain ⟨rfl, -⟩ := (takes_character '.' rfl).1 hPoint
    obtain ⟨rfl, -, hNonempty⟩ := takes_digits.1 hDigits
    exact ⟨[], some _, nofun, isDigits_takeWhile _, .inr hNonempty, rfl, nofun⟩

private theorem takes_optional_digits (hDigits : IsDigits taken) (hRest : StopsAt Char.isDigit rest) :
    filterGrammar.Takes length (.optional (.rule .digits)) (taken ++ rest) taken rest := by
  rw [takes_optional]
  by_cases hNil : taken = []
  · subst hNil
    exact .inr ⟨fails_digits.2 hRest.takeWhile_eq_nil, rfl, rfl⟩
  · exact .inl (takes_digits_append hDigits hNil hRest)

private theorem takes_mantissa {whole : List Char} {fraction : Option (List Char)}
    (hWhole : IsDigits whole) (hFraction : IsDigits (fraction.getD []))
    (hDigit : whole ≠ [] ∨ fraction.getD [] ≠ []) (hRest : StopsAt Char.isDigit rest)
    (hPoint : fraction = none → StopsAt (· = '.') rest) :
    filterGrammar.Takes length mantissa (whole ++ (fractionText fraction ++ rest))
      (whole ++ fractionText fraction) rest := by
  rw [mantissa, takes_choice]
  by_cases hNil : whole = []
  · subst hNil
    obtain ⟨digits, rfl⟩ : ∃ digits, fraction = some digits := by
      cases fraction with
      | none => simp at hDigit
      | some digits => exact ⟨digits, rfl⟩
    refine .inr ⟨fails_seq.2 (.inl (fails_digits.2 rfl)), takes_seq.2 ⟨['.'], _, digits,
      (takes_character '.' rfl).2 ⟨rfl, rfl⟩, takes_digits_append hFraction ?_ hRest, rfl⟩⟩
    exact hDigit.resolve_left (fun h => h rfl)
  · have hStops : StopsAt Char.isDigit (fractionText fraction ++ rest) := by
      cases fraction with
      | none => exact hRest
      | some digits => rfl
    refine .inl (takes_seq.2 ⟨whole, _, _, takes_digits_append hWhole hNil hStops, ?_, rfl⟩)
    rw [takes_optional]
    cases fraction with
    | none =>
      exact .inr ⟨fails_seq.2 (.inl ((fails_character '.' rfl).2 (hPoint rfl))), rfl, rfl⟩
    | some digits =>
      exact .inl (takes_seq.2 ⟨['.'], _, digits, (takes_character '.' rfl).2 ⟨rfl, rfl⟩,
        takes_optional_digits hFraction hRest, rfl⟩)

end Mantissa

/-- Whether a number ends in front of a text. -/
structure Spelling.EndsAt (spelling : Spelling) (rest : List Char) : Prop where
  stopsAt_nameChar : StopsAt isNameChar rest
  stopsAt_point : spelling.fraction = none → spelling.exponent = none → StopsAt (· = '.') rest

/-- The rule of numbers takes spellings only, up to the end of the number. -/
theorem exists_spelling_of_takes
    (h : filterGrammar.Takes length (.rule .number) text taken rest) :
    ∃ spelling : Spelling, taken = spelling.text ∧ spelling.EndsAt rest := by
  obtain ⟨_, _, _, hSign, hOthers, rfl⟩ := takes_seq.1 (takes_rule.1 h)
  obtain ⟨_, _, _, hMantissa, hTail, rfl⟩ := takes_seq.1 hOthers
  obtain ⟨_, _, _, hExponent, hEnd, rfl⟩ := takes_seq.1 hTail
  obtain ⟨hStops, rfl, rfl⟩ := takes_unless_nameChar.1 hEnd
  obtain ⟨sign, rfl⟩ := exists_sign_of_takes hSign
  obtain ⟨whole, fraction, hWhole, hFraction, hDigit, rfl, hPoint⟩ :=
    exists_mantissa_of_takes hMantissa
  obtain ⟨exponent, rfl, hNone⟩ := exists_exponent_of_takes hExponent
  refine ⟨⟨sign, whole, fraction, exponent, hWhole, hFraction, hDigit⟩, ?_, hStops, ?_⟩
  · simp [Spelling.text]
  · intro hNoFraction hNoExponent
    rw [hNone hNoExponent]
    exact hPoint hNoFraction

/-- The rule of numbers takes a spelling where the number ends. -/
theorem takes_spelling (spelling : Spelling) (hEnds : spelling.EndsAt rest) :
    filterGrammar.Takes length (.rule .number) (spelling.text ++ rest) spelling.text rest := by
  obtain ⟨sign, whole, fraction, exponent, hWhole, hFraction, hDigit⟩ := spelling
  obtain ⟨hRest, hPoint⟩ := hEnds
  have hExponentStops : StopsAt Char.isDigit (exponentText exponent ++ rest) :=
    (exponentText_stopsAt ⟨rfl, rfl⟩ exponent).append (hRest.mono fun c hc => by
      simp [isNameChar, Char.isAlphanum, hc])
  have hPointStops (hNone : fraction = none) :
      StopsAt (· = '.') (exponentText exponent ++ rest) := by
    cases exponent with
    | none => exact hPoint hNone rfl
    | some exponent => exact exponentText_stopsAt (p := (· = '.')) ⟨rfl, rfl⟩ (some exponent)
  have hSignStops : StopsAt (fun c => c = '+' || c = '-')
      (whole ++ (fractionText fraction ++ (exponentText exponent ++ rest))) := by
    apply hWhole.stopsAt_sign
    intro hNil
    cases fraction with
    | none => simp [hNil] at hDigit
    | some digits => rfl
  have hMantissa := @takes_mantissa length _ _ _ hWhole hFraction hDigit hExponentStops
    hPointStops
  have hEnd : filterGrammar.Takes length (.unless (.rule .nameChar)) rest [] rest :=
    takes_unless_nameChar.2 ⟨hRest, rfl, rfl⟩
  have hTail := takes_seq.2 ⟨_, _, _, takes_exponent exponent hRest, hEnd, rfl⟩
  have hBody := takes_seq.2 ⟨_, _, _, takes_sign sign hSignStops,
    takes_seq.2 ⟨_, _, _, hMantissa, hTail, rfl⟩, rfl⟩
  rw [takes_rule]
  simp only [Spelling.text, List.append_assoc, List.append_nil] at hBody ⊢
  exact hBody

end RowFilter
