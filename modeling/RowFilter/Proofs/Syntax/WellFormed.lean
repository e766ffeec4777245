import RowFilter.Proofs.Syntax.Built
import RowFilter.Proofs.Syntax.Lexemes
import RowFilter.Proofs.Syntax.Quoted

/-! What every filter that a text spells is like: a tree of a regular shape,
whose names are names of the language and whose texts can stand between
quotes. -/

namespace RowFilter

open Grammar Text

/-- Whether a text begins with a number and goes on like a name behind the longest one. -/
def continuesNumber (text : List Char) : Bool :=
  match longestNumber? text with
  | none => false
  | some lexeme => (text.drop lexeme.length).head?.any isNameChar

/-- The names of columns: words with single dots between them. The first word is not reserved,
and a name that begins with a digit is not a number up to its end or to a dot. -/
structure IsName (name : List Char) : Prop where
  isDotted : isDotted name = true
  not_reserved : ∀ word ∈ reservedWords, firstWord name ≠ word.toList
  continuesNumber : name.head?.any Char.isDigit = true → continuesNumber name = true

instance (name : List Char) : Decidable (IsName name) :=
  decidable_of_iff (isDotted name = true ∧ (∀ word ∈ reservedWords, firstWord name ≠ word.toList) ∧
      (name.head?.any Char.isDigit = true → continuesNumber name = true))
    ⟨fun h => ⟨h.1, h.2.1, h.2.2⟩, fun h => ⟨h.isDotted, h.not_reserved, h.continuesNumber⟩⟩

section Names

variable {length : Nat} {text taken rest : List Char}

private theorem not_stopsAt_of_isLongest {spelling : Spelling} {behind : List Char}
    (hLongest : IsLongest isNumber (spelling.text ++ behind) spelling.text) (hRest : EndsName rest)
    (hFails : filterGrammar.Fails length (.rule .number) (spelling.text ++ behind ++ rest)) :
    ¬StopsAt isNameChar behind := by
  -- Behind a number that a name begins with, the name goes on with a character of names, or else
  -- the number would have been read in place of the name.
  intro hStops
  have hPoint := stopsAt_point_of_isLongest hLongest
  have hNotEnds : ¬spelling.EndsAt (behind ++ rest) := by
    intro hEnds
    rw [List.append_assoc] at hFails
    cases hFails.unique (takes_spelling spelling hEnds)
  have hPointFollows : spelling.fraction = none ∧ spelling.exponent = none ∧
      ¬StopsAt (· = '.') (behind ++ rest) := by
    refine Classical.byContradiction fun hNone => hNotEnds ⟨hStops.append hRest.1, ?_⟩
    intro hFraction hExponent
    exact Classical.byContradiction fun hFollows => hNone ⟨hFraction, hExponent, hFollows⟩
  obtain ⟨hFraction, hExponent, hFollows⟩ := hPointFollows
  cases behind with
  | cons c behind => exact hFollows (hPoint hFraction hExponent)
  | nil =>
    -- The point stands behind the name, and the number with the point ends there.
    cases rest with
    | nil => exact hFollows trivial
    | cons c rest =>
      obtain rfl : c = '.' := by simpa using hFollows
      obtain ⟨other, hText, hOther⟩ := Spelling.exists_point hFraction hExponent
      have hEnds : other.EndsAt rest :=
        ⟨hRest.stopsAt_word rfl, fun hNone => by simp [hOther] at hNone⟩
      have hTakes : filterGrammar.Takes length (.rule .number) (other.text ++ rest)
          other.text rest := takes_spelling other hEnds
      rw [hText] at hTakes
      simp only [List.append_assoc, List.nil_append, List.singleton_append] at hFails hTakes
      cases hFails.unique hTakes

private theorem isNumber_digit {c : Char} (h : c.isDigit = true) : isNumber [c] = true :=
  isNumber_iff.2 ⟨⟨.none, [c], none, none, by simpa [IsDigits] using h, nofun, .inl (by simp)⟩, rfl⟩

/-- The rule of names takes names. -/
theorem isName_of_takes (h : filterGrammar.Takes length (.rule .name) text taken rest) :
    IsName taken := by
  obtain ⟨hDotted, hRest⟩ := dotted_of_takes_name h
  have hBegins := beginsName_of_takes h
  obtain rfl := h.text_eq
  refine ⟨hDotted, ?_, fun hDigit => ?_⟩
  · have hReserved := firstWord_of_fails_reserved hBegins.fails_reserved
    rwa [firstWord, hRest.stopsAt_nameChar.takeWhile_append_left] at hReserved
  · obtain ⟨c, others, rfl⟩ : ∃ c others, taken = c :: others := by
      cases taken with
      | nil => cases hDigit
      | cons c others => exact ⟨c, others, rfl⟩
    cases hLongest : longestNumber? (c :: others) with
    | none =>
      have hNone := longest?_eq_none.1 hLongest [c] (List.prefix_append [c] others)
      rw [isNumber_digit (by simpa using hDigit)] at hNone
      cases hNone
    | some lexeme =>
      have hIsLongest := longest?_eq_some.1 hLongest
      obtain ⟨behind, hBehind⟩ := hIsLongest.isPrefix
      obtain ⟨spelling, rfl⟩ := isNumber_iff.1 hIsLongest.satisfies
      have hFails := hBegins.fails_number
      rw [← hBehind] at hIsLongest hFails
      have hFollows := not_stopsAt_of_isLongest hIsLongest hRest hFails
      rw [continuesNumber, hLongest, ← hBehind]
      simp only [List.drop_left]
      cases behind with
      | nil => exact absurd trivial hFollows
      | cons d behind => simpa using hFollows

example : IsName "5.abc".toList := by decide

example : ¬IsName "1e5.x".toList := by decide

end Names

/-- Whether a literal that is a text can stand between quotes of a kind. -/
def Literal.IsLexical : Literal → Prop
  | .text s => ∃ quote : Quote, IsQuotable quote.char s.toList
  | _ => True

def Column.IsLexical (column : Column) : Prop := IsName column.name.toList

def Operand.IsLexical : Operand → Prop
  | .column c => c.IsLexical
  | .literal value => value.IsLexical

/-- Whether the names and texts of a condition are words of the language. -/
def Condition.IsLexical : Condition → Prop
  | .comparison left _ right => left.IsLexical ∧ right.IsLexical
  | .nullCheck column _ => column.IsLexical
  | .membership column _ values => column.IsLexical ∧ ∀ value ∈ values, value.IsLexical

/-- A filter that negates conditions only, has a value in each list and finite numbers only, and
whose names and texts are words of the language. -/
structure Filter.IsWellFormed (filter : Filter) : Prop where
  isRegular : filter.IsRegular
  isLexical : ∀ c ∈ filter.conditions, c.IsLexical

section Lexical

variable {length : Nat} {node : Node Rule} {nodes : List (Node Rule)}

private theorem IsLeaf.isLexical (h : IsLeaf length .name node) : (Column.ofNode node).IsLexical :=
  isName_of_takes (takes_rule.2 (h.takes_text rfl))

/-- The text of a quoted match can stand between quotes. -/
theorem IsString.exists_isQuotable (h : IsString length node) :
    ∃ quote : Quote, IsQuotable quote.char (quotedText node).toList := by
  obtain ⟨part, hParts, hPart⟩ := h.exists_part
  have hText : quotedText node = part.text := by rw [quotedText, hParts]; rfl
  rw [hText]
  rcases hPart with hPart | hPart
  · exact ⟨.double, isQuotable_of_takes (hPart.takes_text rfl)⟩
  · exact ⟨.single, isQuotable_of_takes (hPart.takes_text rfl)⟩

private theorem LiteralOf.isLexical {value : Literal} (h : LiteralOf length value node) :
    value.IsLexical := by
  cases h with
  | string hString => exact hString.exists_isQuotable
  | number _ hLiteral =>
    rcases Literal.ofNumber?_cases hLiteral with ⟨n, rfl⟩ | ⟨x, rfl, -⟩ <;> trivial

private theorem OperandOf.isLexical {right : Operand} (h : OperandOf length right node) :
    right.IsLexical := by
  cases h with
  | literal hValue => exact hValue.isLexical
  | column hName => exact hName.isLexical

private theorem ValuesOf.isLexical {values : List Literal} (h : ValuesOf length values nodes) :
    ∀ value ∈ values, value.IsLexical := by
  cases h with
  | values _ hValue hOthers _ =>
    refine List.forall_mem_cons.2 ⟨hValue.isLexical, ?_⟩
    clear hValue
    induction hOthers with
    | last => exact nofun
    | more _ hNext _ ih => exact List.forall_mem_cons.2 ⟨hNext.isLexical, ih⟩

private theorem ConditionOf.isLexical {c : Condition} (h : ConditionOf length c node) :
    c.IsLexical := by
  cases h with
  | comparison hColumn _ _ hRight => exact ⟨hColumn.isLexical, hRight.isLexical⟩
  | isNull hColumn | isNotNull hColumn => exact hColumn.isLexical
  | inList hColumn _ hValues | notInList hColumn _ hValues =>
    exact ⟨hColumn.isLexical, hValues.isLexical⟩

private theorem BuiltFrom.isLexical {f : Filter} (h : BuiltFrom length f nodes) :
    ∀ c ∈ f.conditions, c.IsLexical := by
  induction h with
  | condition hNode | negation _ hNode => exact List.forall_mem_singleton.2 hNode.isLexical
  | group _ _ _ ih | conjunction _ ih => exact ih
  | @join connective _ _ _ _ _ _ _ _ _ ihLeft ihRight =>
    cases connective <;> exact List.forall_mem_append.2 ⟨ihLeft, ihRight⟩

end Lexical

namespace Filter

/-- Every filter that a text spells is well formed. -/
theorem isWellFormed_of_parse {source : String} {filter : Filter} (h : parse source = .ok filter) :
    filter.IsWellFormed := by
  obtain ⟨_, _, _, -, -, -, hBuilt⟩ := exists_builtFrom_of_parse h
  exact ⟨isRegular_of_parse h, hBuilt.isLexical⟩

/-- Names that look like numbers, and an escaped quote between quotes of the same kind. -/
theorem isWellFormed_of_parse_mixed :
    ∃ filter, parse "NOT 5abc IN ('it\\'s', -1e3) AND `a.not` != 5.b" = .ok filter ∧
      filter.IsWellFormed := by
  obtain ⟨filter, hParse, -⟩ : ∃ read,
      parse "NOT 5abc IN ('it\\'s', -1e3) AND `a.not` != 5.b" = .ok read ∧
      read.eraseSpans = .and
        (.not (.condition (.membership ⟨"5abc", .none⟩ false
          [.text "it\\'s", .float (Binary64.ofDecimal true 1 3)]) .none) .none)
        (.condition (.comparison ⟨"a.not", .none⟩ .notEqual (.column ⟨"5.b", .none⟩)) .none)
        .none :=
    exists_parse_of_eraseSpans (by decide +kernel)
  exact ⟨filter, hParse, isWellFormed_of_parse hParse⟩

end Filter

end RowFilter
