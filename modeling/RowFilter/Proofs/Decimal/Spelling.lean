import RowFilter.Decimal.Numeral
import RowFilter.Proofs.Text.Stops

/-! The texts that spell numbers. A `Spelling` keeps the parts of such a text
with their well-formedness, so a text is read as a number exactly if it is
the text of a spelling. -/

namespace RowFilter

open Text

def IsDigits (text : List Char) : Prop := ∀ c ∈ text, c.isDigit = true

inductive Sign where
  | none
  | plus
  | minus
deriving DecidableEq

namespace Sign

def text : Sign → List Char
  | none => []
  | plus => ['+']
  | minus => ['-']

def negative : Sign → Bool
  | minus => true
  | _ => false

end Sign

/-- An exponent with its mark, as in `e-7`. -/
structure ExponentSpelling where
  mark : Char
  sign : Sign
  digits : List Char
  mark_eq : mark = 'e' ∨ mark = 'E'
  isDigits : IsDigits digits
  digits_ne_nil : digits ≠ []

namespace ExponentSpelling

def text (exponent : ExponentSpelling) : List Char :=
  exponent.mark :: (exponent.sign.text ++ exponent.digits)

def signedDigits (exponent : ExponentSpelling) : SignedDigits :=
  ⟨exponent.sign.negative, exponent.digits⟩

end ExponentSpelling

def exponentText (exponent : Option ExponentSpelling) : List Char :=
  (exponent.map ExponentSpelling.text).getD []

def fractionText (fraction : Option (List Char)) : List Char :=
  (fraction.map ('.' :: ·)).getD []

/-- The parts of a text that spells a number. -/
structure Spelling where
  sign : Sign
  whole : List Char
  fraction : Option (List Char)
  exponent : Option ExponentSpelling
  whole_isDigits : IsDigits whole
  fraction_isDigits : IsDigits (fraction.getD [])
  has_digit : whole ≠ [] ∨ fraction.getD [] ≠ []

namespace Spelling

def text (spelling : Spelling) : List Char :=
  spelling.sign.text ++ (spelling.whole ++ (fractionText spelling.fraction ++
    exponentText spelling.exponent))

def numeral (spelling : Spelling) : Numeral :=
  ⟨spelling.sign.negative, spelling.whole, spelling.fraction,
    spelling.exponent.map ExponentSpelling.signedDigits⟩

end Spelling

theorem isDigits_takeWhile (text : List Char) : IsDigits (text.takeWhile Char.isDigit) :=
  fun _ => of_mem_takeWhile

/-- An exponent begins with its mark. -/
theorem exponentText_stopsAt {p : Char → Bool} (hMarks : p 'e' = false ∧ p 'E' = false)
    (exponent : Option ExponentSpelling) : StopsAt p (exponentText exponent) := by
  cases exponent with
  | none => trivial
  | some exponent =>
    change p exponent.mark = false
    rcases exponent.mark_eq with h | h <;> rw [h]
    · exact hMarks.1
    · exact hMarks.2

/-- A fraction begins with a point. -/
theorem fractionText_append_stopsAt {p : Char → Bool} {text : List Char}
    (fraction : Option (List Char)) (hPoint : p '.' = false) (hText : StopsAt p text) :
    StopsAt p (fractionText fraction ++ text) := by
  cases fraction with
  | none => exact hText
  | some digits => exact hPoint

/-- A number begins with a sign, a digit or a point. -/
theorem Spelling.text_append_stopsAt {p : Char → Bool} (spelling : Spelling) (rest : List Char)
    (hMarks : (p '+' || p '-' || p '.') = false) (hDigits : ∀ c, c.isDigit = true → p c = false) :
    StopsAt p (spelling.text ++ rest) := by
  obtain ⟨sign, whole, fraction, exponent, hWhole, hFraction, hDigit⟩ := spelling
  simp only [Bool.or_eq_false_iff] at hMarks
  cases sign with
  | plus => exact hMarks.1.1
  | minus => exact hMarks.1.2
  | none =>
    cases whole with
    | cons c whole => exact hDigits c (hWhole c List.mem_cons_self)
    | nil =>
      cases fraction with
      | none => simp at hDigit
      | some fraction => exact hMarks.2

section Characters

/-- The characters that numbers are made of. -/
def isNumberChar (c : Char) : Bool :=
  c.isDigit || c ∈ ['+', '-', '.', 'e', 'E']

private theorem isNumberChar_of_isDigit {c : Char} (h : c.isDigit = true) :
    isNumberChar c = true := by
  rw [isNumberChar, h, Bool.true_or]

private theorem Sign.isNumberChar (sign : Sign) : ∀ c ∈ sign.text, isNumberChar c = true := by
  apply List.all_eq_true.1
  cases sign <;> rfl

/-- A spelled number is made of its own characters only. -/
theorem Spelling.isNumberChar (spelling : Spelling) :
    ∀ c ∈ spelling.text, isNumberChar c = true := by
  have hFraction : ∀ c ∈ fractionText spelling.fraction, RowFilter.isNumberChar c = true := by
    have hDigits := spelling.fraction_isDigits
    cases hSome : spelling.fraction with
    | none => exact nofun
    | some digits =>
      rw [hSome] at hDigits
      exact List.forall_mem_cons.2 ⟨rfl, fun c hc => isNumberChar_of_isDigit (hDigits c hc)⟩
  have hExponent : ∀ c ∈ exponentText spelling.exponent, RowFilter.isNumberChar c = true := by
    cases spelling.exponent with
    | none => exact nofun
    | some exponent =>
      refine List.forall_mem_cons.2 ⟨?_, List.forall_mem_append.2 ⟨exponent.sign.isNumberChar,
        fun c hc => isNumberChar_of_isDigit (exponent.isDigits c hc)⟩⟩
      rcases exponent.mark_eq with h | h <;> rw [h] <;> rfl
  rw [Spelling.text]
  exact List.forall_mem_append.2 ⟨spelling.sign.isNumberChar, List.forall_mem_append.2
    ⟨fun c hc => isNumberChar_of_isDigit (spelling.whole_isDigits c hc),
      List.forall_mem_append.2 ⟨hFraction, hExponent⟩⟩⟩

end Characters

/-- A sign is read if no further sign follows. -/
theorem readSign_append {rest : List Char} (sign : Sign)
    (h : StopsAt (fun c => c = '+' || c = '-') rest) :
    readSign (sign.text ++ rest) = (sign.negative, rest) := by
  cases sign with
  | plus | minus => rfl
  | none =>
    rw [Sign.text, List.nil_append]
    unfold readSign
    split
    · simp at h
    · simp at h
    · rfl

theorem exists_sign (text : List Char) :
    ∃ sign : Sign, ∃ rest, text = sign.text ++ rest ∧ readSign text = (sign.negative, rest) := by
  unfold readSign
  split
  · exact ⟨.minus, _, rfl, rfl⟩
  · exact ⟨.plus, _, rfl, rfl⟩
  · exact ⟨.none, _, rfl, rfl⟩

theorem IsDigits.stopsAt_sign {digits rest : List Char} (h : IsDigits digits)
    (hRest : digits = [] → StopsAt (fun c => c = '+' || c = '-') rest) :
    StopsAt (fun c => c = '+' || c = '-') (digits ++ rest) := by
  cases digits with
  | nil => exact hRest rfl
  | cons c digits =>
    have hc := h c List.mem_cons_self
    rw [List.cons_append, stopsAt_cons, Bool.or_eq_false_iff, decide_eq_false_iff_not,
      decide_eq_false_iff_not]
    constructor <;> rintro rfl <;> cases hc

/-- A spelled exponent is read back. -/
theorem SignedDigits.read?_text (exponent : ExponentSpelling) :
    SignedDigits.read? (exponent.sign.text ++ exponent.digits) = some exponent.signedDigits := by
  have hSign : StopsAt (fun c => c = '+' || c = '-') (exponent.digits ++ []) :=
    exponent.isDigits.stopsAt_sign fun _ => trivial
  rw [List.append_nil] at hSign
  have hAll : exponent.digits.all Char.isDigit = true := List.all_eq_true.2 exponent.isDigits
  rw [SignedDigits.read?, readSign_append _ hSign]
  simp [exponent.digits_ne_nil, hAll, ExponentSpelling.signedDigits]

namespace Numeral

/-- A spelled fraction is read back. -/
theorem readFraction_append {text : List Char} (fraction : Option (List Char))
    (hDigits : IsDigits (fraction.getD [])) (hDigit : StopsAt Char.isDigit text)
    (hPoint : StopsAt (· = '.') text) :
    readFraction (fractionText fraction ++ text) = (fraction, text) := by
  cases fraction with
  | some digits =>
    have hDigits : IsDigits digits := hDigits
    change (some (List.takeWhile Char.isDigit (digits ++ text)),
      List.dropWhile Char.isDigit (digits ++ text)) = _
    rw [hDigit.takeWhile_append hDigits, hDigit.dropWhile_append hDigits]
  | none =>
    change readFraction text = _
    unfold readFraction
    split
    · cases hPoint
    · rfl

private theorem readExponent?_text (exponent : Option ExponentSpelling) :
    readExponent? (exponentText exponent) =
      some (exponent.map ExponentSpelling.signedDigits) := by
  cases exponent with
  | none => rfl
  | some exponent =>
    have hRead := SignedDigits.read?_text exponent
    change readExponent? (exponent.mark :: (exponent.sign.text ++ exponent.digits)) = _
    rw [readExponent?, if_pos exponent.mark_eq, hRead]
    rfl

/-- A spelling is read as its number. -/
theorem read?_text (spelling : Spelling) : read? spelling.text = some spelling.numeral := by
  have hSign := spelling.whole_isDigits.stopsAt_sign fun _ =>
    fractionText_append_stopsAt spelling.fraction rfl
      (exponentText_stopsAt ⟨rfl, rfl⟩ spelling.exponent)
  have hDigit := exponentText_stopsAt (p := Char.isDigit) ⟨rfl, rfl⟩ spelling.exponent
  have hPoint := exponentText_stopsAt (p := (· = '.')) ⟨rfl, rfl⟩ spelling.exponent
  have hStops := fractionText_append_stopsAt spelling.fraction rfl hDigit
  have hNonempty : ¬(spelling.whole = [] ∧ spelling.fraction.getD [] = []) :=
    fun ⟨hWhole, hFraction⟩ => spelling.has_digit.elim (· hWhole) (· hFraction)
  rw [read?, Spelling.text, readSign_append _ hSign]
  dsimp only
  rw [hStops.takeWhile_append spelling.whole_isDigits,
    hStops.dropWhile_append spelling.whole_isDigits,
    readFraction_append _ spelling.fraction_isDigits hDigit hPoint, readExponent?_text]
  dsimp only
  rw [if_neg hNonempty]
  rfl

/-- Spelled numbers are told apart in front of what does not go on with a number. -/
theorem text_append_inj {spelling other : Spelling} {rest otherRest : List Char}
    (hRest : StopsAt isNumberChar rest) (hOtherRest : StopsAt isNumberChar otherRest)
    (h : spelling.text ++ rest = other.text ++ otherRest) :
    spelling.numeral = other.numeral ∧ rest = otherRest := by
  have hText : spelling.text = other.text := by
    rw [← hRest.takeWhile_append spelling.isNumberChar, h,
      hOtherRest.takeWhile_append other.isNumberChar]
  rw [hText, List.append_cancel_left_eq] at h
  have hNumeral := read?_text spelling
  rw [hText, read?_text, Option.some.injEq] at hNumeral
  exact ⟨hNumeral.symm, h⟩

/-- A spelled number begins with a character of its own. -/
theorem exists_text_eq_cons (spelling : Spelling) :
    ∃ first others, spelling.text = first :: others ∧ isNumberChar first = true := by
  cases hText : spelling.text with
  | nil =>
    have hRead := read?_text spelling
    rw [hText] at hRead
    cases hRead
  | cons first others =>
    exact ⟨first, others, rfl, spelling.isNumberChar first (hText ▸ List.mem_cons_self)⟩

private theorem exists_exponent {text : List Char} {exponent : Option SignedDigits}
    (h : readExponent? text = some exponent) :
    ∃ spelling : Option ExponentSpelling, text = exponentText spelling := by
  cases text with
  | nil => exact ⟨none, rfl⟩
  | cons c text =>
    rw [readExponent?] at h
    split at h
    · next hMark =>
      obtain ⟨digits, hDigits, -⟩ := Option.map_eq_some_iff.1 h
      obtain ⟨sign, rest, rfl, hSign⟩ := exists_sign text
      rw [SignedDigits.read?, hSign] at hDigits
      dsimp only at hDigits
      split at hDigits
      · next hRest =>
        exact ⟨some ⟨c, sign, rest, hMark, List.all_eq_true.1 hRest.2, hRest.1⟩, rfl⟩
      · cases hDigits
    · cases h

private theorem exists_fraction (text : List Char) :
    ∃ fraction rest, text = fractionText fraction ++ rest ∧
      readFraction text = (fraction, rest) ∧ IsDigits (fraction.getD []) := by
  unfold readFraction
  split
  · next text =>
    exact ⟨some (text.takeWhile Char.isDigit), text.dropWhile Char.isDigit,
      by simp [fractionText], rfl, isDigits_takeWhile text⟩
  · exact ⟨none, _, rfl, rfl, nofun⟩

/-- Only spellings are read as numbers. -/
theorem exists_spelling {text : List Char} {n : Numeral} (h : read? text = some n) :
    ∃ spelling : Spelling, text = spelling.text ∧ n = spelling.numeral := by
  suffices hSpelling : ∃ spelling : Spelling, text = spelling.text by
    obtain ⟨spelling, rfl⟩ := hSpelling
    rw [read?_text] at h
    exact ⟨spelling, rfl, (Option.some.inj h).symm⟩
  obtain ⟨sign, unsigned, rfl, hSign⟩ := exists_sign text
  obtain ⟨fraction, behind, hBehind, hFraction, hDigits⟩ :=
    exists_fraction (unsigned.dropWhile Char.isDigit)
  rw [read?, hSign] at h
  dsimp only at h
  rw [hFraction] at h
  dsimp only at h
  split at h
  · cases h
  · next hDigit =>
    obtain ⟨exponent, hExponent, -⟩ := Option.map_eq_some_iff.1 h
    obtain ⟨exponentSpelling, rfl⟩ := exists_exponent hExponent
    refine ⟨⟨sign, unsigned.takeWhile Char.isDigit, fraction, exponentSpelling,
      isDigits_takeWhile unsigned, hDigits, ?_⟩, ?_⟩
    · exact Decidable.not_and_iff_or_not.1 hDigit
    · rw [Spelling.text, ← hBehind, List.takeWhile_append_dropWhile]

end Numeral

end RowFilter
