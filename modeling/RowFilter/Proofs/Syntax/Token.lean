import RowFilter.Filter.Basic
import RowFilter.Proofs.Syntax.Lexemes
import RowFilter.Proofs.Syntax.Quoted

/-! The tokens of filters, read without the grammar. A token is the longest
that a text begins with, and what it is depends neither on what stands before
it nor on the token behind it. -/

namespace RowFilter

open Text

/-- The tokens of filters. A phrase such as `IS NOT NULL` is one token. -/
inductive Token where
  | name (name : String)
  | operator (operator : Comparison)
  /-- A number with its value, if it is not too large for one. -/
  | number (value : Option Literal)
  /-- The text between two quotes, with its escapes. -/
  | string (text : String)
  | connective (connective : Connective)
  | negation
  | nullTest (negated : Bool)
  | membership (negated : Bool)
  | leftParen
  | rightParen
  | comma
deriving DecidableEq

namespace Token

/-- The tokens of fixed characters. A symbol comes before its beginnings. -/
def symbols : List (String × Token) :=
  [Comparison.notEqual, .greaterOrEqual, .lessOrEqual, .less, .greater, .equal].map
      (fun comparison => (comparison.symbol, operator comparison)) ++
    [("(", leftParen), (")", rightParen), (",", comma)]

/-- The tokens of words, which may be in any case. A phrase comes before its beginnings. -/
def phrases : List (List String × Token) :=
  [(["is", "not", "null"], nullTest true), (["is", "null"], nullTest false),
    (["not", "in"], membership true), (["not"], negation), (["in"], membership false),
    (["and"], connective .and), (["or"], connective .or)]

/-- What stands behind given characters. -/
def behindSymbol? (symbol : List Char) (text : List Char) : Option (List Char) :=
  if symbol <+: text then some (text.drop symbol.length) else none

/-- What stands behind given words with gaps before them. -/
def behindWords? : List String → List Char → Option (List Char)
  | [], text => some text
  | word :: words, text =>
    let text := text.dropWhile isGap
    if firstWord text = word.toList then behindWords? words (text.dropWhile isNameChar) else none

/-- Reads up to the first quote that is not behind a backslash. -/
def readQuoted? (quote : Char) : List Char → Option (List Char × List Char)
  | [] => none
  | c :: text =>
    if c = quote then some ([], text)
    else if c = '\\' then
      match text with
      | [] => none
      | d :: text => (readQuoted? quote text).map fun (body, rest) => (c :: d :: body, rest)
    else (readQuoted? quote text).map fun (body, rest) => (c :: body, rest)

def symbol? (text : List Char) : Option (Token × List Char) :=
  symbols.findSome? fun (symbol, token) => (behindSymbol? symbol.toList text).map (token, ·)

def quoted? : List Char → Option (Token × List Char)
  | [] => none
  | c :: text =>
    if c = '\'' ∨ c = '"' then
      (readQuoted? c text).map fun (body, rest) => (string (String.ofList body), rest)
    else none

/-- A number ends where no character of a name follows. -/
def number? (text : List Char) : Option (Token × List Char) :=
  (longestNumber? text).bind fun lexeme =>
    if (text.drop lexeme.length).head?.any isNameChar then none
    else some (number (Literal.ofNumber? (String.ofList lexeme)), text.drop lexeme.length)

def keyword? (text : List Char) : Option (Token × List Char) :=
  phrases.findSome? fun (words, token) => (behindWords? words text).map (token, ·)

def name? (text : List Char) : Option (Token × List Char) :=
  (longest? isDotted text).map fun lexeme =>
    (name (String.ofList lexeme), text.drop lexeme.length)

def next? (text : List Char) : Option (Token × List Char) :=
  (symbol? text).or ((quoted? text).or ((number? text).or ((keyword? text).or (name? text))))

/-- Whether a character is dropped between tokens. -/
def isDropped (c : Char) : Bool := isGap c || c = '`'

/-- The tokens of a text without gaps and backticks. No token is empty. -/
def readAll? (text : List Char) : Option (List Token) :=
  match text with
  | [] => some []
  | c :: behind =>
    if isDropped c then readAll? behind
    else
      match next? (c :: behind) with
      | none => none
      | some (token, rest) =>
        if rest.length ≤ behind.length then (readAll? rest).map (token :: ·) else none
termination_by text.length
decreasing_by
  · exact Nat.lt_succ_self _
  · exact Nat.lt_succ_of_le ‹_›

/-- Drops the parentheses of groups. Those around the values of a list open behind its keyword. -/
def dropGroups (inList : Bool) : List Token → List Token
  | [] => []
  | membership negated :: leftParen :: tokens =>
    membership negated :: leftParen :: dropGroups true tokens
  | leftParen :: tokens => dropGroups inList tokens
  | rightParen :: tokens =>
    if inList then rightParen :: dropGroups false tokens else dropGroups false tokens
  | token :: tokens => token :: dropGroups inList tokens

/-- The tokens of a text in order, without gaps, backticks and the parentheses of groups. -/
def ofText? (text : List Char) : Option (List Token) :=
  (readAll? text).map (dropGroups false)

end Token

def Literal.token : Literal → Token
  | text s => .string s
  | value => .number (some value)

def Operand.token : Operand → Token
  | column c => .name c.name
  | literal value => value.token

def Condition.tokens : Condition → List Token
  | comparison left operator right => [.name left.name, .operator operator, right.token]
  | nullCheck column negated => [.name column.name, .nullTest negated]
  | membership column negated values =>
    .name column.name :: .membership negated :: .leftParen ::
      ((values.map Literal.token).intersperse .comma ++ [.rightParen])

/-- The tokens of a filter in order: a connective stands between its operands. -/
def Filter.tokens : Filter → List Token
  | condition c _ => c.tokens
  | and left right _ => left.tokens ++ .connective .and :: right.tokens
  | or left right _ => left.tokens ++ .connective .or :: right.tokens
  | not operand _ => .negation :: operand.tokens

namespace Token

open Grammar

variable {length : Nat} {text taken rest body : List Char}

section Next

private def isMark (c : Char) : Bool := c ∈ ['!', '>', '<', '=', '(', ')', ',', '\'', '"']

private theorem isMark_eq_false {p : Char → Bool} {c : Char}
    (hClass : ['!', '>', '<', '=', '(', ')', ',', '\'', '"'].all (!p ·) = true) (h : p c = true) :
    isMark c = false := by
  refine Bool.eq_false_iff.2 fun hMark => ?_
  have hNot := List.all_eq_true.1 hClass c (of_decide_eq_true hMark)
  rw [h] at hNot
  cases hNot

private theorem isDropped_eq_false {p : Char → Bool} {c : Char}
    (hClass : (p ' ' || p '\t' || p '\r' || p '\n' || p '`') = false) (h : p c = true) :
    isDropped c = false := by
  rw [Bool.or_eq_false_iff] at hClass
  rw [isDropped, isGap_eq_false hClass.1 h, Bool.false_or, decide_eq_false_iff_not]
  rintro rfl
  rw [h] at hClass
  cases hClass.2

private theorem readAll?_of_next? {token : Token} (hNext : next? text = some (token, rest))
    (hStops : StopsAt isDropped text) (hShorter : rest.length < text.length) :
    readAll? text = (readAll? rest).map (token :: ·) := by
  cases text with
  | nil => cases hNext
  | cons c behind =>
    rw [stopsAt_cons] at hStops
    rw [readAll?, hStops, if_neg Bool.false_ne_true, hNext]
    exact if_pos (Nat.le_of_lt_succ hShorter)

private theorem length_lt {rule : Rule} (hConsuming : rule.consuming = true)
    (h : filterGrammar.Takes length (.rule rule) text taken rest) : rest.length < text.length :=
  filterGrammar_ranked.length_lt h hConsuming

private theorem next?_of_stopsAt (h : StopsAt isMark text) :
    next? text = (number? text).or ((keyword? text).or (name? text)) := by
  have hSymbol : symbol? text = none := by
    rw [symbol?, List.findSome?_eq_none_iff]
    intro entry hMem
    have hStart : ∀ entry ∈ symbols, entry.1.toList.head?.any isMark = true := by decide
    have hEntry := hStart entry hMem
    have hNotPrefix : ¬entry.1.toList <+: text := by
      rintro ⟨rest, rfl⟩
      cases hSymbol : entry.1.toList with
      | nil =>
        rw [hSymbol] at hEntry
        cases hEntry
      | cons c symbol =>
        rw [hSymbol] at hEntry h
        have hMark : isMark c = true := hEntry
        have hNoMark : isMark c = false := h
        rw [hMark] at hNoMark
        cases hNoMark
    simp [behindSymbol?, hNotPrefix]
  have hQuoted : quoted? text = none := by
    cases text with
    | nil => rfl
    | cons c text =>
      rw [quoted?, if_neg]
      rintro (rfl | rfl) <;> cases h
  rw [next?, hSymbol, hQuoted]
  rfl

private theorem number?_eq_none (h : filterGrammar.Fails length (.rule .number) text) :
    number? text = none := by
  rw [number?]
  cases hLongest : longestNumber? text with
  | none => rfl
  | some lexeme =>
    obtain ⟨rest, rfl⟩ := (longest?_eq_some.1 hLongest).isPrefix
    rw [Option.bind_some, List.drop_left]
    refine if_pos (Decidable.byContradiction fun hEnds => ?_)
    rw [Bool.not_eq_true] at hEnds
    have hStops : StopsAt isNameChar rest := by
      cases rest with
      | nil => trivial
      | cons c rest => exact hEnds
    cases h.unique (takes_number_iff.2 ⟨hLongest, rfl, hStops⟩)

private theorem next?_number (h : filterGrammar.Takes length (.rule .number) text taken rest) :
    next? text = some (number (Literal.ofNumber? (String.ofList taken)), rest) := by
  obtain ⟨hLongest, rfl, hStops⟩ := takes_number_iff.1 h
  obtain ⟨spelling, rfl, -⟩ := exists_spelling_of_takes h
  have hMark : StopsAt isMark (spelling.text ++ rest) :=
    spelling.text_append_stopsAt rest rfl fun c => isMark_eq_false rfl
  have hEnds : rest.head?.any isNameChar = false := by
    cases rest with
    | nil => rfl
    | cons c rest => exact hStops
  rw [next?_of_stopsAt hMark, number?, hLongest, Option.bind_some, List.drop_left, hEnds]
  rfl

private theorem next?_name (h : filterGrammar.Takes length (.rule .name) text taken rest) :
    next? text = some (name (String.ofList taken), rest) := by
  have hBegins := beginsName_of_takes h
  have hMark : StopsAt isMark text := by
    obtain ⟨c, others, rfl, hChar⟩ := hBegins.exists_nameChar
    exact isMark_eq_false rfl hChar
  have hGap : text.dropWhile isGap = text := hBegins.stopsAt_gap.dropWhile_eq_self
  have hKeyword : keyword? text = none := by
    have hReserved := firstWord_of_fails_reserved hBegins.fails_reserved
    rw [keyword?, List.findSome?_eq_none_iff]
    intro entry hMem
    have hStart : ∀ entry ∈ phrases, ∃ word ∈ reservedWords, entry.1.head? = some word := by decide
    obtain ⟨word, hWord, hHead⟩ := hStart entry hMem
    obtain ⟨words, token⟩ := entry
    cases words with
    | nil => cases hHead
    | cons first words =>
      obtain rfl := Option.some.inj hHead
      simp [behindWords?, hGap, hReserved first hWord]
  have hLongest := longest_of_takes_name h
  obtain rfl := h.text_eq
  rw [next?_of_stopsAt hMark, number?_eq_none hBegins.fails_number, hKeyword, name?, hLongest]
  simp

private theorem readQuoted?_of_isQuotable {quote : Char} (hQuote : quote ≠ '\\')
    (h : IsQuotable quote body) (rest : List Char) :
    readQuoted? quote (body ++ quote :: rest) = some (body, rest) := by
  induction h with
  | nil =>
    rw [List.nil_append, readQuoted?.eq_def]
    exact if_pos rfl
  | escaped c _ ih =>
    rw [List.cons_append, List.cons_append, readQuoted?.eq_def]
    dsimp only
    rw [if_neg (Ne.symm hQuote), if_pos rfl, ih]
    rfl
  | @plain c text hOther hBackslash _ ih =>
    rw [List.cons_append, readQuoted?.eq_def]
    dsimp only
    rw [if_neg hOther, if_neg hBackslash, ih]
    rfl

private theorem next?_quoted {quote : Quote} (h : IsQuotable quote.char body) (rest : List Char) :
    next? (quote.char :: (body ++ quote.char :: rest)) =
      some (string (String.ofList body), rest) := by
  have hRead := readQuoted?_of_isQuotable quote.char_ne_backslash h rest
  have hQuoted : quoted? (quote.char :: (body ++ quote.char :: rest)) =
      some (string (String.ofList body), rest) := by
    rw [quoted?, hRead, if_pos (by cases quote <;> simp [Quote.char])]
    rfl
  have hSymbol : symbol? (quote.char :: (body ++ quote.char :: rest)) = none := by
    cases quote <;> rfl
  rw [next?, hSymbol, hQuoted]
  rfl

end Next

section Symbols

private theorem behindSymbol?_of_takes {word : String}
    (h : filterGrammar.Takes length (.literal word) text taken rest) :
    behindSymbol? word.toList text = some rest := by
  obtain ⟨-, rfl⟩ := takes_literal.1 h
  rw [behindSymbol?, if_pos (List.prefix_append _ _), List.drop_left]

private theorem behindSymbol?_of_fails {word : String}
    (h : filterGrammar.Fails length (.literal word) text) :
    behindSymbol? word.toList text = none := by
  refine if_neg ?_
  rintro ⟨rest, rfl⟩
  cases h.unique (takes_literal.2 ⟨rfl, rfl⟩)

private theorem symbol?_of_takes {first : Comparison} {others : List Comparison}
    (h : filterGrammar.Takes length
      (Rule.firstOf (.literal first.symbol) (others.map fun c => .literal c.symbol))
      text taken rest) (more : List (String × Token)) :
    ∃ comparison : Comparison, taken = comparison.symbol.toList ∧
      ((first :: others).map (fun c => (c.symbol, operator c)) ++ more).findSome?
        (fun (symbol, token) => (behindSymbol? symbol.toList text).map (token, ·)) =
          some (operator comparison, rest) := by
  induction others generalizing first with
  | nil =>
    refine ⟨first, (takes_literal.1 h).1, ?_⟩
    simp [behindSymbol?_of_takes h]
  | cons second others ih =>
    rcases takes_choice.1 h with h | ⟨hFirst, h⟩
    · refine ⟨first, (takes_literal.1 h).1, ?_⟩
      simp [behindSymbol?_of_takes h]
    · obtain ⟨comparison, hTaken, hFound⟩ := ih h
      refine ⟨comparison, hTaken, ?_⟩
      rw [List.map_cons, List.cons_append, List.findSome?_cons]
      simpa [behindSymbol?_of_fails hFirst] using hFound

/-- A comparison symbol is one token. -/
theorem next?_comparisonSymbol
    (h : filterGrammar.Takes length (.rule .comparisonSymbol) text taken rest) :
    ∃ comparison : Comparison, taken = comparison.symbol.toList ∧
      next? text = some (operator comparison, rest) := by
  have hBody : filterGrammar.Takes length
      (Rule.firstOf (.literal Comparison.notEqual.symbol)
        ([.greaterOrEqual, .lessOrEqual, .less, .greater, .equal].map
          fun c : Comparison => .literal c.symbol)) text taken rest := takes_rule.1 h
  obtain ⟨comparison, hTaken, hFound⟩ :=
    symbol?_of_takes hBody [("(", leftParen), (")", rightParen), (",", comma)]
  have hSymbol : symbol? text = some (operator comparison, rest) := hFound
  exact ⟨comparison, hTaken, by rw [next?, hSymbol]; rfl⟩

end Symbols

section Words

private theorem stopsAt_nameChar_of_gap (h : text.takeWhile isGap ≠ []) :
    StopsAt isNameChar text := by
  cases text with
  | nil => trivial
  | cons c text =>
    refine Bool.eq_false_iff.2 fun hName => h ?_
    have hGap : StopsAt isGap (c :: text) := isGap_eq_false rfl hName
    exact hGap.takeWhile_eq_nil

private theorem behindWords?_of_takes {word : String} {words : List String}
    (hWords : (word :: words).all isKeyword = true)
    (h : filterGrammar.Takes length (phrase word words) (text.dropWhile isGap) taken rest) :
    behindWords? (word :: words) text = some rest := by
  induction words generalizing word text taken with
  | nil =>
    rw [List.all_cons, Bool.and_eq_true] at hWords
    obtain ⟨hFirst, -, rfl⟩ := (takes_wholeWord_iff hWords.1).1 h
    exact if_pos hFirst
  | cons next words ih =>
    rw [List.all_cons, Bool.and_eq_true] at hWords
    obtain ⟨_, middle, _, hWord, hOthers, rfl⟩ := takes_seq.1 h
    obtain ⟨_, _, _, hGaps, hPhrase, rfl⟩ := takes_seq.1 hOthers
    obtain ⟨rfl, rfl, hNonempty⟩ := takes_gaps_iff.1 hGaps
    obtain ⟨hFirst, -, rfl⟩ :=
      (takes_word_stopsAt hWords.1).1 ⟨hWord, stopsAt_nameChar_of_gap hNonempty⟩
    exact (if_pos hFirst).trans (ih hWords.2 hPhrase)

private theorem behindWords?_eq_none {words others : List String}
    (h : behindWords? words text = some rest)
    (hDiffers : (words.zip others).any (fun (a, b) => a ≠ b) = true) :
    behindWords? others text = none := by
  induction words generalizing others text with
  | nil => cases hDiffers
  | cons word words ih =>
    cases others with
    | nil => cases hDiffers
    | cons other others =>
      rw [behindWords?] at h ⊢
      split at h
      · next hWord =>
        by_cases hSame : word = other
        · subst hSame
          rw [if_pos hWord]
          refine ih h ?_
          simpa using hDiffers
        · refine if_neg fun hOther => hSame ?_
          exact String.toList_inj.1 (hWord.symm.trans hOther)
      · cases h

private theorem toLower_of_isDigit {c : Char} (h : c.isDigit = true) : c.toLower = c := by
  simp only [Char.isDigit, Bool.and_eq_true, decide_eq_true_eq, ge_iff_le,
    UInt32.le_iff_toNat_le] at h
  have hMost : c.val.toNat ≤ 57 := h.2
  delta Char.toLower
  refine dif_neg fun hUpper => ?_
  have hLeast : 65 ≤ c.val.toNat := UInt32.le_iff_toNat_le.1 hUpper.1
  omega

private theorem exists_letter_of_takes {word : String} {words : List String}
    (hWord : isKeyword word = true) (hLetter : word.toList.head?.any (!·.isDigit) = true)
    (h : filterGrammar.Takes length (phrase word words) text taken rest) :
    ∃ c behind, text = c :: behind ∧ isNameChar c = true ∧ c.isDigit = false := by
  obtain ⟨before, middle, hTakes⟩ :
      ∃ before middle, filterGrammar.Takes length (.word word) text before middle := by
    cases words with
    | nil =>
      obtain ⟨before, middle, _, hTakes, -⟩ := takes_seq.1 h
      exact ⟨before, middle, hTakes⟩
    | cons next words =>
      obtain ⟨before, middle, _, hTakes, -⟩ := takes_seq.1 h
      exact ⟨before, middle, hTakes⟩
  have hChars := isNameChar_of_takes_word hWord hTakes
  obtain ⟨hLower, rfl⟩ := (takes_word_iff hWord).1 hTakes
  rw [← hLower] at hLetter
  cases before with
  | nil => cases hLetter
  | cons c before =>
    have hFirst : c.toLower.isDigit = false := by simpa using hLetter
    refine ⟨c, _, rfl, hChars c List.mem_cons_self, Bool.eq_false_iff.2 fun hDigit => ?_⟩
    rw [toLower_of_isDigit hDigit, hDigit] at hFirst
    cases hFirst

private theorem next?_of_letter {c : Char} {behind : List Char} (hName : isNameChar c = true)
    (hDigit : c.isDigit = false) :
    next? (c :: behind) = (keyword? (c :: behind)).or (name? (c :: behind)) := by
  have hMark : StopsAt isMark (c :: behind) := isMark_eq_false rfl hName
  have hNumber : number? (c :: behind) = none := by
    rw [number?]
    cases hLongest : longestNumber? (c :: behind) with
    | none => rfl
    | some lexeme =>
      have hIsLongest := longest?_eq_some.1 hLongest
      obtain ⟨rest, hRest⟩ := hIsLongest.isPrefix
      obtain ⟨spelling, rfl⟩ := isNumber_iff.1 hIsLongest.satisfies
      have hStops := spelling.text_append_stopsAt (p := fun c => isNameChar c && !c.isDigit) rest
        rfl (fun d hd => by simp [hd])
      rw [hRest] at hStops
      simp [hName, hDigit] at hStops
  rw [next?_of_stopsAt hMark, hNumber]
  rfl

private theorem readAll?_phrase {rule : Rule} {word : String} {words : List String}
    {token : Token} (i : Nat) (hPhrase : phrases[i]? = some (word :: words, token))
    (hWords : (word :: words).all isKeyword = true)
    (hLetter : word.toList.head?.any (!·.isDigit) = true)
    (hBody : rule.body = phrase word words) (hConsuming : rule.consuming = true)
    (h : filterGrammar.Takes length (.rule rule) text taken rest)
    (hBefore : ∀ entry ∈ phrases.take i, behindWords? (word :: words) text = some rest →
      behindWords? entry.1 text = none) :
    readAll? text = (readAll? rest).map (token :: ·) := by
  have hTakes : filterGrammar.Takes length (phrase word words) text taken rest :=
    hBody ▸ takes_rule.1 h
  have hWord : isKeyword word = true := (Bool.and_eq_true_iff.1 hWords).1
  obtain ⟨c, behind, rfl, hName, hDigit⟩ := exists_letter_of_takes hWord hLetter hTakes
  have hGap : StopsAt isGap (c :: behind) := isGap_eq_false rfl hName
  have hFound : behindWords? (word :: words) (c :: behind) = some rest := by
    rw [← hGap.dropWhile_eq_self] at hTakes
    exact behindWords?_of_takes hWords hTakes
  have hSplit : phrases = phrases.take i ++ (word :: words, token) :: phrases.drop (i + 1) := by
    obtain ⟨hLt, hEntry⟩ := List.getElem?_eq_some_iff.1 hPhrase
    rw [← hEntry, ← List.drop_eq_getElem_cons hLt, List.take_append_drop]
  have hKeyword : keyword? (c :: behind) = some (token, rest) := by
    refine List.findSome?_eq_some_iff.2 ⟨_, _, _, hSplit, ?_, fun entry hMem => ?_⟩
    · exact congrArg (Option.map (token, ·)) hFound
    · exact congrArg (Option.map (entry.2, ·)) (hBefore entry hMem hFound)
  refine readAll?_of_next? ?_ (isDropped_eq_false rfl hName) (length_lt hConsuming h)
  rw [next?_of_letter hName hDigit, hKeyword]
  rfl

end Words

section Tokens

/-- The token of a rule whose matches all mean the same. -/
def ofRule? : Rule → Option Token
  | .keywordAnd => some (connective .and)
  | .keywordOr => some (connective .or)
  | .keywordNot => some negation
  | .keywordIn => some (membership false)
  | .keywordNotIn => some (membership true)
  | .isNull => some (nullTest false)
  | .isNotNull => some (nullTest true)
  | .leftParen => some leftParen
  | .rightParen => some rightParen
  | .comma => some comma
  | _ => none

/-- A number is one token. -/
theorem readAll?_number (h : filterGrammar.Takes length (.rule .number) text taken rest) :
    readAll? text =
      (readAll? rest).map (number (Literal.ofNumber? (String.ofList taken)) :: ·) := by
  refine readAll?_of_next? (next?_number h) ?_ (length_lt rfl h)
  obtain ⟨spelling, rfl, -⟩ := exists_spelling_of_takes h
  rw [h.text_eq]
  exact spelling.text_append_stopsAt rest rfl fun c => isDropped_eq_false rfl

/-- A name is one token. -/
theorem readAll?_name (h : filterGrammar.Takes length (.rule .name) text taken rest) :
    readAll? text = (readAll? rest).map (name (String.ofList taken) :: ·) := by
  refine readAll?_of_next? (next?_name h) ?_ (length_lt rfl h)
  obtain ⟨c, others, rfl, hChar⟩ := (beginsName_of_takes h).exists_nameChar
  exact isDropped_eq_false rfl hChar

/-- A quoted text is one token. -/
theorem readAll?_quoted {quote : Quote} (h : IsQuotable quote.char body) (rest : List Char) :
    readAll? (quote.char :: (body ++ quote.char :: rest)) =
      (readAll? rest).map (string (String.ofList body) :: ·) := by
  refine readAll?_of_next? (next?_quoted h rest) ?_ ?_
  · cases quote <;> rfl
  · simp only [List.length_cons, List.length_append]
    omega

theorem readAll?_comparisonSymbol
    (h : filterGrammar.Takes length (.rule .comparisonSymbol) text taken rest) :
    ∃ comparison : Comparison, taken = comparison.symbol.toList ∧
      readAll? text = (readAll? rest).map (operator comparison :: ·) := by
  obtain ⟨comparison, hTaken, hNext⟩ := next?_comparisonSymbol h
  refine ⟨comparison, hTaken, readAll?_of_next? hNext ?_ (length_lt rfl h)⟩
  rw [h.text_eq, hTaken]
  cases comparison <;> rfl

private theorem behindWords?_not {word : String}
    (hWord : firstWord (rest.dropWhile isGap) ≠ word.toList)
    (h : behindWords? ["not"] text = some rest) : behindWords? ["not", word] text = none := by
  rw [behindWords?] at h ⊢
  split at h
  · next hNot =>
    rw [if_pos hNot]
    obtain rfl := Option.some.inj h
    exact if_neg hWord
  · cases h

/-- A word of the grammar is one token, if no longer phrase begins with it. -/
theorem readAll?_word {rule : Rule} {token : Token} (hKind : rule.kind = .atomic)
    (hToken : ofRule? rule = some token)
    (hNegation : rule = .keywordNot → firstWord (rest.dropWhile isGap) ≠ "in".toList)
    (h : filterGrammar.Takes length (.rule rule) text taken rest) :
    readAll? text = (readAll? rest).map (token :: ·) := by
  have hDiffers {i : Nat} {words : List String}
      (hWords : (phrases.take i).all
        (fun entry => (words.zip entry.1).any fun (a, b) => a ≠ b) = true) :
      ∀ entry ∈ phrases.take i, behindWords? words text = some rest →
        behindWords? entry.1 text = none :=
    fun entry hMem hFound => behindWords?_eq_none hFound (List.all_eq_true.1 hWords entry hMem)
  cases rule <;> cases hToken <;> cases hKind
  case keywordAnd => exact readAll?_phrase 5 rfl rfl rfl rfl rfl h (hDiffers rfl)
  case keywordOr => exact readAll?_phrase 6 rfl rfl rfl rfl rfl h (hDiffers rfl)
  case keywordIn => exact readAll?_phrase 4 rfl rfl rfl rfl rfl h (hDiffers rfl)
  case keywordNotIn => exact readAll?_phrase 2 rfl rfl rfl rfl rfl h (hDiffers rfl)
  case isNull => exact readAll?_phrase 1 rfl rfl rfl rfl rfl h (hDiffers rfl)
  case isNotNull => exact readAll?_phrase 0 rfl rfl rfl rfl rfl h nofun
  case keywordNot =>
    refine readAll?_phrase 3 rfl rfl rfl rfl rfl h fun entry hMem hFound => ?_
    have hOthers : entry.1 = ["not", "in"] ∨
        (["not"].zip entry.1).any (fun (a, b) => a ≠ b) = true := by
      revert entry
      decide
    rcases hOthers with hIn | hDiffers
    · rw [hIn]
      exact behindWords?_not (hNegation rfl) hFound
    · exact behindWords?_eq_none hFound hDiffers

/-- A mark is one token. -/
theorem readAll?_mark {rule : Rule} {token : Token} (hKind : rule.kind = .normal)
    (hToken : ofRule? rule = some token) {word : String} (hBody : rule.body = .literal word)
    (rest : List Char) :
    readAll? (word.toList ++ rest) = (readAll? rest).map (token :: ·) := by
  cases rule <;> cases hToken <;> cases hKind <;> cases hBody
  all_goals exact readAll?_of_next? rfl rfl (Nat.lt_succ_self _)

/-- Gaps hold no tokens. -/
theorem readAll?_dropWhile_gap (text : List Char) :
    readAll? (text.dropWhile isGap) = readAll? text := by
  induction text with
  | nil => rfl
  | cons c text ih =>
    rw [List.dropWhile_cons]
    split
    · next hGap => rw [ih, readAll?, isDropped, hGap, Bool.true_or, if_pos rfl]
    · rfl

/-- Backticks are no tokens. -/
theorem readAll?_backtick (text : List Char) : readAll? ('`' :: text) = readAll? text := by
  rw [readAll?]
  rfl

end Tokens

end Token

end RowFilter
