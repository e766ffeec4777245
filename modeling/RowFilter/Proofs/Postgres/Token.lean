import RowFilter.Postgres.Condition
import RowFilter.Proofs.Decimal.Spelling
import RowFilter.Text.Blank

/-! The tokens of SQL. Identifiers stand between double quotes and texts
between single quotes, where a doubled quote stands for one and a backslash
for itself. Numbers may have a sign. Words are keywords in any case. -/

namespace RowFilter.Postgres

open Text

inductive Token where
  | identifier (name : String)
  | string (text : String)
  | number (numeral : Numeral)
  | word (text : String)
  | symbol (text : String)
deriving DecidableEq

/-- Reads up to the first quote that is not doubled. -/
def readQuoted? (quote : Char) : List Char → Option (List Char × List Char)
  | [] => none
  | [c] => if c = quote then some ([], []) else none
  | c :: d :: text =>
    if c = quote then
      if d = quote then (readQuoted? quote text).map fun (body, rest) => (quote :: body, rest)
      else some ([], d :: text)
    else (readQuoted? quote (d :: text)).map fun (body, rest) => (c :: body, rest)

/-- The exponent at the beginning of a text, if there is one, and what follows. -/
def readExponent (text : List Char) : Option SignedDigits × List Char :=
  match text with
  | [] => (none, [])
  | c :: behind =>
    let (negative, behind) := readSign behind
    if (c = 'e' ∨ c = 'E') ∧ behind.takeWhile Char.isDigit ≠ [] then
      (some ⟨negative, behind.takeWhile Char.isDigit⟩, behind.dropWhile Char.isDigit)
    else (none, text)

/-- Whether a text begins with a digit, maybe behind a sign and a point. -/
def startsNumber (text : List Char) : Bool :=
  match (readSign text).2 with
  | '.' :: behind => behind.head?.any Char.isDigit
  | behind => behind.head?.any Char.isDigit

/-- The number at the beginning of a text, and what follows. -/
def readNumber (text : List Char) : Numeral × List Char :=
  let (negative, text) := readSign text
  let (fraction, behind) := Numeral.readFraction (text.dropWhile Char.isDigit)
  let (exponent, rest) := readExponent behind
  (⟨negative, text.takeWhile Char.isDigit, fraction, exponent⟩, rest)

def isWordStart (c : Char) : Bool := c.isAlpha || c = '_' || 128 ≤ c.toNat

def isWordChar (c : Char) : Bool := isWordStart c || c.isDigit || c = '$'

def isOperatorChar (c : Char) : Bool := c ∈ "+-*/<>=~!@#%^&|?".toList

def isPunctuation (c : Char) : Bool := c ∈ "(),;.:[]".toList

def next? (text : List Char) : Option (Token × List Char) :=
  match text with
  | [] => none
  | c :: behind =>
    if c = '"' then
      (readQuoted? '"' behind).map fun (body, rest) => (.identifier (String.ofList body), rest)
    else if c = '\'' then
      (readQuoted? '\'' behind).map fun (body, rest) => (.string (String.ofList body), rest)
    else if startsNumber text then
      let (numeral, rest) := readNumber text
      if rest.head?.any isWordChar then none else some (.number numeral, rest)
    else if isWordStart c then
      some (.word (String.ofList ((text.takeWhile isWordChar).map Char.toUpper)),
        text.dropWhile isWordChar)
    else if isOperatorChar c then
      some (.symbol (String.ofList (text.takeWhile isOperatorChar)),
        text.dropWhile isOperatorChar)
    else if isPunctuation c then some (.symbol (String.ofList [c]), behind)
    else none

/-- The tokens of a text. No token is empty. -/
def tokens? (text : List Char) : Option (List Token) :=
  match text with
  | [] => some []
  | c :: behind =>
    if isGap c then tokens? behind
    else
      match next? (c :: behind) with
      | none => none
      | some (token, rest) =>
        if rest.length ≤ behind.length then (tokens? rest).map (token :: ·) else none
termination_by text.length
decreasing_by
  · exact Nat.lt_succ_self _
  · exact Nat.lt_succ_of_le ‹_›

section Next

variable {rest : List Char}

/-- A text between doubled quotes is read back. -/
theorem readQuoted?_double {quote : Char} (hRest : StopsAt (· = quote) rest) (body : List Char) :
    readQuoted? quote (double quote body ++ quote :: rest) = some (body, rest) := by
  induction body with
  | nil =>
    change readQuoted? quote (quote :: rest) = some ([], rest)
    cases rest with
    | nil => simp [readQuoted?]
    | cons d rest =>
      have hNe : d ≠ quote := of_decide_eq_false hRest
      simp [readQuoted?, hNe]
  | cons c body ih =>
    by_cases hQuote : c = quote
    · subst hQuote
      have hDouble : double c (c :: body) = c :: c :: double c body := by simp [double]
      rw [hDouble, List.cons_append, List.cons_append, readQuoted?, if_pos rfl, if_pos rfl, ih]
      rfl
    · have hDouble : double quote (c :: body) = c :: double quote body := by simp [double, hQuote]
      obtain ⟨d, text, hText⟩ : ∃ d text, double quote body ++ quote :: rest = d :: text :=
        List.exists_cons_of_ne_nil (by simp)
      rw [hDouble, List.cons_append, hText, readQuoted?, if_neg hQuote, ← hText, ih]
      rfl

/-- An identifier ends unless a further quote follows. -/
theorem next?_identifier_of_stopsAt (name : String) (hRest : StopsAt (· = '"') rest) :
    next? ((identifier name).toList ++ rest) = some (.identifier name, rest) := by
  have hQuoted := readQuoted?_double hRest name.toList
  rw [identifier, quoted, String.toList_ofList, List.cons_append, List.cons_append, List.append_assoc,
    List.cons_append, List.nil_append, next?, if_pos rfl, hQuoted]
  exact congrArg (fun body => some (Token.identifier body, rest)) String.ofList_toList

/-- A quoted identifier is read back. -/
theorem next?_identifier (name : String) (hRest : StopsAt (!isDelimiter ·) rest) :
    next? ((identifier name).toList ++ rest) = some (.identifier name, rest) :=
  next?_identifier_of_stopsAt name (stopsAt_of_delimiter hRest rfl)

/-- A quoted text is read back. -/
theorem next?_string (text : String) (hRest : StopsAt (!isDelimiter ·) rest) :
    next? ((string text).toList ++ rest) = some (.string text, rest) := by
  have hStops : StopsAt (· = '\'') rest := stopsAt_of_delimiter hRest rfl
  have hQuoted := readQuoted?_double hStops text.toList
  rw [string, quoted, String.toList_ofList, List.cons_append, List.cons_append, List.append_assoc,
    List.cons_append, List.nil_append, next?, if_neg (by decide), if_pos rfl, hQuoted]
  exact congrArg (fun body => some (Token.string body, rest)) String.ofList_toList

private theorem readExponent_text (exponent : Option ExponentSpelling)
    (hDigit : StopsAt Char.isDigit rest) (hMark : StopsAt (fun c => c = 'e' || c = 'E') rest) :
    readExponent (exponentText exponent ++ rest) =
      (exponent.map ExponentSpelling.signedDigits, rest) := by
  cases exponent with
  | none =>
    cases rest with
    | nil => rfl
    | cons c rest =>
      have hNot : ¬(c = 'e' ∨ c = 'E') := by simpa using hMark
      simp [exponentText, readExponent, hNot]
  | some exponent =>
    have hStops : StopsAt (fun c => c = '+' || c = '-') (exponent.digits ++ rest) :=
      exponent.isDigits.stopsAt_sign fun h => absurd h exponent.digits_ne_nil
    have hSign := readSign_append exponent.sign hStops
    change readExponent (exponent.mark :: (exponent.sign.text ++ exponent.digits ++ rest)) = _
    rw [readExponent, List.append_assoc, hSign]
    dsimp only
    rw [hDigit.takeWhile_append exponent.isDigits, hDigit.dropWhile_append exponent.isDigits,
      if_pos ⟨exponent.mark_eq, exponent.digits_ne_nil⟩]
    rfl

private theorem stopsAt_sign (spelling : Spelling) (text : List Char) :
    StopsAt (fun c => c = '+' || c = '-')
      (spelling.whole ++ (fractionText spelling.fraction ++ text)) := by
  apply spelling.whole_isDigits.stopsAt_sign
  intro hNil
  cases hFraction : spelling.fraction with
  | none =>
    have hDigit := spelling.has_digit
    rw [hNil, hFraction] at hDigit
    exact (hDigit.elim (· rfl) (· rfl)).elim
  | some digits => rfl

/-- A spelled number is read up to its end. -/
theorem readNumber_text (spelling : Spelling) (hRest : StopsAt (!isDelimiter ·) rest) :
    readNumber (spelling.text ++ rest) = (spelling.numeral, rest) := by
  have hDigit : StopsAt Char.isDigit rest := stopsAt_of_delimiter hRest rfl
  have hPoint : StopsAt (· = '.') rest := stopsAt_of_delimiter hRest rfl
  have hMark : StopsAt (fun c => c = 'e' || c = 'E') rest :=
    stopsAt_of_delimiter hRest rfl
  have hExponentDigit : StopsAt Char.isDigit (exponentText spelling.exponent ++ rest) :=
    (exponentText_stopsAt ⟨rfl, rfl⟩ _).append hDigit
  have hExponentPoint : StopsAt (· = '.') (exponentText spelling.exponent ++ rest) :=
    (exponentText_stopsAt ⟨rfl, rfl⟩ _).append hPoint
  have hStops := fractionText_append_stopsAt spelling.fraction rfl hExponentDigit
  rw [Spelling.text, readNumber]
  simp only [List.append_assoc]
  rw [readSign_append _ (stopsAt_sign spelling _)]
  dsimp only
  rw [hStops.takeWhile_append spelling.whole_isDigits,
    hStops.dropWhile_append spelling.whole_isDigits,
    Numeral.readFraction_append _ spelling.fraction_isDigits hExponentDigit hExponentPoint]
  dsimp only
  rw [readExponent_text _ hDigit hMark]
  rfl

theorem startsNumber_text (spelling : Spelling) : startsNumber (spelling.text ++ rest) = true := by
  rw [startsNumber, Spelling.text]
  simp only [List.append_assoc]
  rw [readSign_append _ (stopsAt_sign spelling _)]
  dsimp only
  cases hWhole : spelling.whole with
  | cons c whole =>
    have hDigit : c.isDigit = true := spelling.whole_isDigits c (hWhole ▸ List.mem_cons_self)
    rw [List.cons_append]
    split
    · next hPoint =>
      cases hPoint
      cases hDigit
    · exact hDigit
  | nil =>
    have hFraction := spelling.has_digit.resolve_left (· hWhole)
    have hDigits := spelling.fraction_isDigits
    cases hSome : spelling.fraction with
    | none =>
      rw [hSome] at hFraction
      exact absurd rfl hFraction
    | some digits =>
      rw [hSome] at hFraction hDigits
      obtain ⟨d, digits, rfl⟩ := List.exists_cons_of_ne_nil hFraction
      exact hDigits d List.mem_cons_self

private theorem ne_of_startsNumber {c : Char} {text : List Char}
    (h : startsNumber (c :: text) = true) : c ≠ '"' ∧ c ≠ '\'' := by
  constructor <;> rintro rfl <;> cases h

/-- A spelled number is read back. -/
theorem next?_number (spelling : Spelling) (hRest : StopsAt (!isDelimiter ·) rest) :
    next? (spelling.text ++ rest) = some (.number spelling.numeral, rest) := by
  have hStarts := @startsNumber_text rest spelling
  have hRead := readNumber_text spelling hRest
  have hEnd : rest.head?.any isWordChar = false := by
    have hWord : StopsAt isWordChar rest := stopsAt_of_delimiter hRest rfl
    cases rest with
    | nil => rfl
    | cons c rest => exact hWord
  generalize spelling.text ++ rest = text at hStarts hRead
  cases text with
  | nil => cases hStarts
  | cons c text =>
    obtain ⟨hDouble, hSingle⟩ := ne_of_startsNumber hStarts
    rw [next?, if_neg hDouble, if_neg hSingle, if_pos hStarts, hRead]
    dsimp only
    rw [if_neg (by simp [hEnd])]

private theorem startsNumber_eq_false {c : Char} {text : List Char} (hDigit : c.isDigit = false)
    (hSign : c ≠ '+' ∧ c ≠ '-' ∧ c ≠ '.') : startsNumber (c :: text) = false := by
  obtain ⟨hPlus, hMinus, hPoint⟩ := hSign
  have hRead : readSign (c :: text) = (false, c :: text) := by
    unfold readSign
    split <;> simp_all
  rw [startsNumber, hRead]
  split <;> simp_all

private theorem isDigit_of_isWordStart {c : Char} (h : isWordStart c = true) : c.isDigit = false := by
  rw [Bool.eq_false_iff]
  intro hDigit
  simp only [Char.isDigit, Bool.and_eq_true, decide_eq_true_eq, UInt32.le_iff_toNat_le] at hDigit
  rw [isWordStart] at h
  delta Char.isAlpha Char.isUpper Char.isLower at h
  simp only [Bool.or_eq_true, Bool.and_eq_true, decide_eq_true_eq, UInt32.le_iff_toNat_le] at h
  change 48 ≤ c.toNat ∧ c.toNat ≤ 57 at hDigit
  rcases h with (hAlpha | rfl) | hLarge
  · change (65 ≤ c.toNat ∧ c.toNat ≤ 90) ∨ (97 ≤ c.toNat ∧ c.toNat ≤ 122) at hAlpha
    omega
  · revert hDigit
    decide
  · omega

/-- A word is read in upper case. -/
theorem next?_word {c : Char} {word : List Char} (hStart : isWordStart c = true)
    (hWord : ∀ d ∈ word, isWordChar d = true) (hRest : StopsAt (!isDelimiter ·) rest) :
    next? (c :: word ++ rest) =
      some (.word (String.ofList ((c :: word).map Char.toUpper)), rest) := by
  have hStops : StopsAt isWordChar rest := stopsAt_of_delimiter hRest rfl
  have hAll : ∀ d ∈ c :: word, isWordChar d = true := by
    rw [List.forall_mem_cons]
    exact ⟨by rw [isWordChar, hStart]; rfl, hWord⟩
  have hNe {d : Char} (h : isWordStart d = false) : c ≠ d := by
    rintro rfl
    rw [h] at hStart
    cases hStart
  have hNumber : startsNumber (c :: (word ++ rest)) = false :=
    startsNumber_eq_false (isDigit_of_isWordStart hStart) ⟨hNe rfl, hNe rfl, hNe rfl⟩
  rw [List.cons_append, next?, if_neg (hNe rfl), if_neg (hNe rfl), if_neg (by simp [hNumber]),
    if_pos hStart, ← List.cons_append, hStops.takeWhile_append hAll, hStops.dropWhile_append hAll]

theorem next?_operator {c : Char} {operator : List Char}
    (hNumber : startsNumber (c :: (operator ++ rest)) = false)
    (hOperator : (c :: operator).all isOperatorChar = true)
    (hRest : StopsAt (!isDelimiter ·) rest) :
    next? (c :: operator ++ rest) = some (.symbol (String.ofList (c :: operator)), rest) := by
  rw [List.all_eq_true] at hOperator
  have hStops : StopsAt isOperatorChar rest := stopsAt_of_delimiter hRest rfl
  have hStart := hOperator c List.mem_cons_self
  have hNe {d : Char} (h : isOperatorChar d = false) : c ≠ d := by
    rintro rfl
    rw [h] at hStart
    cases hStart
  have hWords : ("+-*/<>=~!@#%^&|?".toList.all fun d => !isWordStart d) = true := rfl
  have hStartWord := List.all_eq_true.1 hWords c (of_decide_eq_true hStart)
  rw [List.cons_append, next?, if_neg (hNe rfl), if_neg (hNe rfl), if_neg (by simp [hNumber]),
    if_neg (by simpa using hStartWord), if_pos hStart, ← List.cons_append, hStops.takeWhile_append hOperator,
    hStops.dropWhile_append hOperator]

theorem next?_punctuation {c : Char} (h : c = '(' ∨ c = ')' ∨ c = ',') :
    next? (c :: rest) = some (.symbol (String.ofList [c]), rest) := by
  rcases h with rfl | rfl | rfl <;> rfl

private theorem isGap_of_next? {c : Char} {text : List Char} {result : Token × List Char}
    (h : next? (c :: text) = some result) : isGap c = false := by
  rw [Bool.eq_false_iff]
  intro hGap
  simp only [isGap, Bool.or_eq_true, decide_eq_true_eq] at hGap
  rcases hGap with ((rfl | rfl) | rfl) | rfl <;> cases h

/-- Tokens are read one after the other. -/
theorem tokens?_of_next? {text : List Char} {token : Token} (hNonempty : text ≠ [])
    (h : next? (text ++ rest) = some (token, rest)) :
    tokens? (text ++ rest) = (tokens? rest).map (token :: ·) := by
  obtain ⟨c, text, rfl⟩ := List.exists_cons_of_ne_nil hNonempty
  rw [List.cons_append] at h ⊢
  have hLength : rest.length ≤ (text ++ rest).length := by
    rw [List.length_append]
    exact Nat.le_add_left _ _
  rw [tokens?, if_neg (by simp [isGap_of_next? h]), h]
  exact if_pos hLength

theorem tokens?_blank : tokens? (' ' :: rest) = tokens? rest := by
  rw [tokens?, if_pos (by decide)]

end Next

end RowFilter.Postgres
