import RowFilter.Proofs.Filter.Canonical
import RowFilter.Proofs.Filter.Spans
import RowFilter.Proofs.Syntax.Build
import RowFilter.Proofs.Syntax.Quoted

/-! Printed values are read back. Numbers are read before texts are tried, and
a quote begins no number. -/

namespace RowFilter

open Grammar Text

variable {length : Nat} {behind rest : List Char} {quote : String → Quote}

def BuildsLiteral (value : Literal) (nodes : List (Node Rule)) : Prop :=
  ∃ node, nodes = [node] ∧ (node.rule = .number ∨ node.rule = .string) ∧
    Literal.ofNode node = .ok value

/-- An atomic rule in front of a gap. -/
theorem accepts_atomic {rule : Rule} {text taken : List Char}
    (h : filterGrammar.Takes length (.rule rule) text taken behind) (hKind : rule.kind = .atomic)
    (hGap : IsBehindGap behind rest) :
    Accepts filterGrammar length (.rule rule) .initial text rest (IsWord rule taken) := by
  have hWord : Accepts filterGrammar length (.rule rule) .initial text
      (Mode.initial.behindGap isGap behind) (IsWord rule taken) := .atomic h hKind rfl
  rwa [hGap] at hWord

section Numbers

/-- A spelled number is read as its literal. -/
theorem accepts_spelling {spelling : Spelling} {value : Literal}
    (hValue : Literal.ofNumeral? spelling.numeral = some value)
    (hBehind : StopsAt (!isDelimiter ·) behind) (hGap : IsBehindGap behind rest) :
    Accepts filterGrammar length (.rule .number) .initial (spelling.text ++ behind) rest
      (BuildsLiteral value) := by
  have hTakes : filterGrammar.Takes length (.rule .number) (spelling.text ++ behind)
      spelling.text behind :=
    takes_spelling spelling
      ⟨stopsAt_of_delimiter hBehind rfl, fun _ _ => stopsAt_of_delimiter hBehind rfl⟩
  apply (accepts_atomic hTakes rfl hGap).mono
  intro nodes hNodes
  obtain ⟨node, rfl, hRule, -, hText⟩ := hNodes
  refine ⟨node, rfl, .inl hRule, ?_⟩
  have hNumber : Literal.ofNumber? node.text = some value := by
    rw [Literal.ofNumber?, hText, String.toList_ofList, Numeral.read?_text]
    exact hValue
  rw [Literal.ofNode, hRule]
  simp only [hNumber]

/-- A number begins with a sign, a digit or a point. -/
theorem refuses_number {text : List Char}
    (h : StopsAt (fun c => c.isDigit || c = '+' || c = '-' || c = '.') text) {mode : Mode} :
    Refuses filterGrammar length (.rule .number) mode text := by
  have hSign : filterGrammar.Fails length (.rule .sign) text :=
    fails_rule.2 (fails_choice.2 ⟨(fails_character '+' rfl).2 (h.mono (by simp)),
      (fails_character '-' rfl).2 (h.mono (by simp))⟩)
  have hDigits : filterGrammar.Fails length (.rule .digits) text := by
    apply fails_digits.2
    have hStops : StopsAt Char.isDigit text := h.mono fun c hc => by simp [hc]
    exact hStops.takeWhile_eq_nil
  have hPoint : filterGrammar.Fails length (.literal ".") text :=
    (fails_character '.' rfl).2 (h.mono (by simp))
  refine .of_fails (fails_rule.2 (fails_seq.2 (.inr ⟨[], _, takes_optional.2
    (.inr ⟨hSign, rfl, rfl⟩), ?_⟩))) rfl
  exact fails_seq.2 (.inl (fails_choice.2 ⟨fails_seq.2 (.inl hDigits), fails_seq.2 (.inl hPoint)⟩))

theorem refuses_number_quote (quote : Quote) (text : List Char) {mode : Mode} :
    Refuses filterGrammar length (.rule .number) mode (quote.char :: text) := by
  cases quote <;> exact refuses_number (stopsAt_cons.2 rfl)

end Numbers

section Texts

/-- A text between quotes is read as the text. -/
theorem accepts_quoted {quote : Quote} {text : String} (h : IsQuotable quote.char text.toList)
    (hGap : IsBehindGap behind rest) :
    Accepts filterGrammar length (.rule .string) .initial
      (quote.char :: (text.toList ++ quote.char :: behind)) rest (BuildsLiteral (.text text)) := by
  intro start hStart
  have hStop : (start.past (quote.char :: (text.toList ++ [quote.char]))).rest = behind :=
    Cursor.rest_past (by simp [hStart])
  refine ⟨_, _, matches_quoted h hStart, hStop ▸ hGap, _, rfl, .inr rfl, ?_⟩
  have hText : quotedText (quotedNode quote text.toList start) = text :=
    (quotedText_quotedNode hStart).trans String.ofList_toList
  exact congrArg (fun text => Except.ok (Literal.text text)) hText

end Texts

/-- A literal in writing is a spelling that is read as the literal, unless it is a text. -/
theorem exists_spelling_or_text {value : Literal} (hRegular : value.IsRegular)
    (quote : String → Quote) :
    (∃ spelling : Spelling, value.source quote = spelling.text ∧
      Literal.ofNumeral? spelling.numeral = some value) ∨ ∃ text, value = .text text := by
  cases value with
  | integer n =>
    obtain ⟨spelling, hSpelled⟩ := Literal.exists_spelling_integer n
    exact .inl ⟨spelling, hSpelled.canonical_eq, hSpelled.ofNumeral?_eq⟩
  | float x =>
    obtain ⟨spelling, hSpelled⟩ := Literal.exists_spelling_float hRegular
    exact .inl ⟨spelling, hSpelled.canonical_eq, hSpelled.ofNumeral?_eq⟩
  | text text => exact .inr ⟨text, rfl⟩

theorem stopsAt_gap_literal {value : Literal} (hRegular : value.IsRegular)
    (quote : String → Quote) (behind : List Char) :
    StopsAt isGap (value.source quote ++ behind) := by
  rcases exists_spelling_or_text hRegular quote with ⟨spelling, hSource, -⟩ | ⟨text, rfl⟩
  · rw [hSource]
    exact spelling.text_append_stopsAt behind rfl fun c hc => isGap_eq_false rfl hc
  · cases h : quote text <;> simp [Literal.source, h, Quote.char, isGap]

/-- A printed literal is read as a number, or else as a text. -/
theorem accepts_number_or_string {value : Literal} (hRegular : value.IsRegular)
    (hSpellable : value.IsSpellable quote) (hBehind : StopsAt (!isDelimiter ·) behind)
    (hGap : IsBehindGap behind rest) :
    Accepts filterGrammar length (.rule .number) .initial (value.source quote ++ behind) rest
        (BuildsLiteral value) ∨
      Refuses filterGrammar length (.rule .number) .initial (value.source quote ++ behind) ∧
        Accepts filterGrammar length (.rule .string) .initial (value.source quote ++ behind) rest
          (BuildsLiteral value) := by
  rcases exists_spelling_or_text hRegular quote with ⟨spelling, hSource, hValue⟩ | ⟨text, rfl⟩
  · left
    rw [hSource]
    exact accepts_spelling hValue hBehind hGap
  · right
    have hText : (Literal.text text).source quote ++ behind =
        (quote text).char :: (text.toList ++ (quote text).char :: behind) := by
      simp [Literal.source]
    rw [hText]
    exact ⟨refuses_number_quote _ _, accepts_quoted ((quote text).isQuotable hSpellable) hGap⟩

/-- A printed literal is read back. -/
theorem accepts_literal {value : Literal} (hRegular : value.IsRegular)
    (hSpellable : value.IsSpellable quote) (hBehind : StopsAt (!isDelimiter ·) behind)
    (hGap : IsBehindGap behind rest) :
    Accepts filterGrammar length (.rule .literal) .initial (value.source quote ++ behind) rest
      (BuildsLiteral value) := by
  rcases accepts_number_or_string hRegular hSpellable hBehind hGap with hNumber | ⟨hNot, hString⟩
  · exact .silent (.choiceFirst hNumber) rfl
  · exact .silent (.choiceSecond hNot hString) rfl

/-- A single match that builds the right side of a comparison, up to spans. -/
def BuildsOperand (right : Operand) (nodes : List (Node Rule)) : Prop :=
  ∃ node operand, nodes = [node] ∧ Operand.ofNode node = .ok operand ∧
    operand.eraseSpans = right.eraseSpans

/-- A match that spells a name builds the column of the name. -/
theorem eraseSpans_ofNode {column : Column} {node : Node Rule}
    (h : node.text = String.ofList column.name.toList) :
    (Column.ofNode node).eraseSpans = column.eraseSpans := by
  rw [String.ofList_toList] at h
  simp only [Column.eraseSpans, Column.ofNode, h]

private theorem BuildsLiteral.operand {value : Literal} {nodes : List (Node Rule)}
    (h : BuildsLiteral value nodes) : BuildsOperand (.literal value) nodes := by
  obtain ⟨node, rfl, hRule, hLiteral⟩ := h
  refine ⟨node, .literal value, rfl, ?_, rfl⟩
  have hName : node.rule ≠ .name := by
    rcases hRule with hRule | hRule <;> rw [hRule] <;> decide
  unfold Operand.ofNode
  split
  · next hRule => exact absurd hRule hName
  · rw [hLiteral]
    rfl

/-- A printed operand is read back. -/
theorem accepts_operand {right : Operand} (hRegular : right.IsRegular)
    (hSpellable : right.IsSpellable quote) (hBehind : StopsAt (!isDelimiter ·) behind)
    (hGap : IsBehindGap behind rest) :
    Accepts filterGrammar length (.rule .operand) .initial (right.source quote ++ behind) rest
      (BuildsOperand right) := by
  cases right with
  | literal value =>
    refine Accepts.mono ?_ fun nodes => BuildsLiteral.operand
    rcases accepts_number_or_string hRegular hSpellable hBehind hGap with
      hNumber | ⟨hNot, hString⟩
    · exact .silent (.choiceFirst hNumber) rfl
    · exact .silent (.choiceSecond hNot (.choiceFirst hString)) rfl
  | column column =>
    have hBegins := beginsName length hSpellable hBehind
    have hColumn : Accepts filterGrammar length (.rule .column) .initial
        (column.name.toList ++ behind) rest (IsWord .name column.name.toList) :=
      accepts_column hSpellable hBehind hGap
    refine .silent (.choiceSecond hBegins.refuses_number (.choiceSecond hBegins.refuses_string
      (hColumn.mono fun nodes hNodes => ?_))) rfl
    obtain ⟨node, rfl, hRule, -, hText⟩ := hNodes
    exact ⟨node, .column (.ofNode node), rfl, by rw [Operand.ofNode, hRule],
      congrArg Operand.column (eraseSpans_ofNode hText)⟩

theorem stopsAt_gap_operand {right : Operand} (hRegular : right.IsRegular)
    (hSpellable : right.IsSpellable quote) (hBehind : StopsAt (!isDelimiter ·) behind) :
    StopsAt isGap (right.source quote ++ behind) := by
  cases right with
  | literal value => exact stopsAt_gap_literal hRegular quote behind
  | column column => exact (beginsName 0 hSpellable hBehind).stopsAt_gap

section Lists

/-- A rule of a single character. -/
theorem accepts_mark {rule : Rule} {word : String} {c : Char} (hKind : rule.kind = .normal)
    (hBody : rule.body = .literal word) (hWord : word.toList = [c])
    (hGap : IsBehindGap behind rest) :
    Accepts filterGrammar length (.rule rule) .initial (c :: behind) rest
      (IsShown rule (· = [])) := by
  have hLiteral : Accepts filterGrammar length (.literal word) .initial (word.toList ++ behind)
      (Mode.initial.behindGap isGap behind) (· = []) := .literal
  rw [hGap, hWord, ← hBody] at hLiteral
  exact .normal hLiteral hKind rfl

theorem refuses_mark {rule : Rule} {word : String} {c d : Char} {text : List Char}
    (hBody : rule.body = .literal word) (hWord : word.toList = [c]) (hOther : c ≠ d) {mode : Mode} :
    Refuses filterGrammar length (.rule rule) mode (d :: text) := by
  have hLiteral : Refuses filterGrammar length (.literal word) (rule.kind.inside mode)
      (d :: text) := by
    refine .literal ?_
    rw [hWord]
    simp [takeAll?, hOther]
  rw [← hBody] at hLiteral
  exact .of_body hLiteral

private def moreSource (quote : String → Quote) (values : List Literal) : List Char :=
  values.flatMap fun value => ',' :: ' ' :: value.source quote

private theorem intercalate_eq (value : Literal) (values : List Literal) :
    [',', ' '].intercalate ((value :: values).map (Literal.source quote)) =
      value.source quote ++ moreSource quote values := by
  induction values generalizing value with
  | nil => simp [moreSource]
  | cons next values ih =>
    rw [List.map_cons, List.map_cons, List.intercalate_cons_cons, ← List.map_cons, ih]
    simp [moreSource]

/-- Matches that add values to those of the matches behind them. -/
private def BuildsMoreValues (values : List Literal) (nodes : List (Node Rule)) : Prop :=
  ∀ others, literalsOf (nodes ++ others) = (literalsOf others).map (values ++ ·)

private theorem BuildsLiteral.builds_cons {value : Literal} {values : List Literal}
    {nodes others : List (Node Rule)} (hFirst : BuildsLiteral value nodes)
    (hOthers : BuildsMoreValues values others) :
    BuildsMoreValues (value :: values) (nodes ++ others) := by
  intro behind
  obtain ⟨node, rfl, hRule, hLiteral⟩ := hFirst
  rw [List.append_assoc, List.singleton_append, literalsOf_cons hRule, hLiteral, hOthers]
  cases literalsOf behind <;> rfl

private theorem BuildsMoreValues.behind_comma {values : List Literal}
    {comma nodes : List (Node Rule)} (hComma : IsShown .comma (· = []) comma)
    (h : BuildsMoreValues values nodes) : BuildsMoreValues values (comma ++ nodes) := by
  intro behind
  obtain ⟨start, stop, _, rfl, rfl⟩ := hComma
  rw [List.append_assoc, List.singleton_append, literalsOf_mark (by simp [Node.rule]), h]

private theorem stopsAt_moreSource {p : Char → Bool} {values : List Literal}
    (hMarks : (p ',' || p ')') = false) : StopsAt p (moreSource quote values ++ ')' :: behind) := by
  rw [Bool.or_eq_false_iff] at hMarks
  cases values with
  | nil => exact hMarks.2
  | cons value values => exact hMarks.1

private theorem accepts_comma (h : StopsAt isGap behind) :
    Accepts filterGrammar length (.rule .comma) .initial (',' :: ' ' :: behind) behind
      (IsShown .comma (· = [])) :=
  accepts_mark rfl rfl rfl (isBehindGap_blank h)

private theorem continues_values {values : List Literal}
    (hRegular : ∀ value ∈ values, value.IsRegular)
    (hSpellable : ∀ value ∈ values, value.IsSpellable quote) :
    Continues filterGrammar length (.seq (.rule .comma) (.rule .literal)) .initial
      (moreSource quote values ++ ')' :: behind) (')' :: behind) (BuildsMoreValues values) := by
  induction values with
  | nil =>
    apply (Continues.done (.seqFirst (refuses_mark rfl rfl (by decide)))).mono
    rintro _ rfl others
    cases h : literalsOf others with
    | error fault => simp [h, Except.map]
    | ok values => simp [h, Except.map]
  | cons value values ih =>
    obtain ⟨hValueRegular, hRegular⟩ := List.forall_mem_cons.1 hRegular
    obtain ⟨hValueSpellable, hSpellable⟩ := List.forall_mem_cons.1 hSpellable
    have hText : moreSource quote (value :: values) ++ ')' :: behind =
        ',' :: ' ' :: (value.source quote ++ (moreSource quote values ++ ')' :: behind)) := by
      simp [moreSource]
    have hStops := stopsAt_gap_literal hValueRegular quote (moreSource quote values ++ ')' :: behind)
    have hValue : Accepts filterGrammar length (.rule .literal) .initial
        (value.source quote ++ (moreSource quote values ++ ')' :: behind))
        (moreSource quote values ++ ')' :: behind) (BuildsLiteral value) :=
      accepts_literal hValueRegular hValueSpellable (stopsAt_moreSource rfl)
        (isBehindGap_self (stopsAt_moreSource rfl))
    rw [hText]
    apply (Continues.more ((accepts_comma hStops).seq hValue) (ih hRegular hSpellable)).mono
    rintro _ ⟨_, _, rfl, ⟨comma, first, rfl, hCommaNodes, hFirst⟩, hOthers⟩
    rw [List.append_assoc]
    exact (hFirst.builds_cons hOthers).behind_comma hCommaNodes

/-- A printed list is read as its values. -/
theorem accepts_literalList {values : List Literal} (hNonempty : values ≠ [])
    (hRegular : ∀ value ∈ values, value.IsRegular)
    (hSpellable : ∀ value ∈ values, value.IsSpellable quote) (hGap : IsBehindGap behind rest) :
    Accepts filterGrammar length (.rule .literalList) .initial
      (enclosed true ([',', ' '].intercalate (values.map (Literal.source quote))) ++ behind) rest
      (IsShown .literalList fun parts => literalsOf parts = .ok values) := by
  obtain ⟨value, values, rfl⟩ := List.exists_cons_of_ne_nil hNonempty
  obtain ⟨hValueRegular, hRegular⟩ := List.forall_mem_cons.1 hRegular
  obtain ⟨hValueSpellable, hSpellable⟩ := List.forall_mem_cons.1 hSpellable
  have hText : enclosed true ([',', ' '].intercalate
      ((value :: values).map (Literal.source quote))) ++ behind =
        '(' :: (value.source quote ++ (moreSource quote values ++ ')' :: behind)) := by
    rw [intercalate_eq]
    simp [enclosed]
  have hStops := stopsAt_gap_literal hValueRegular quote (moreSource quote values ++ ')' :: behind)
  have hLeft : Accepts filterGrammar length (.rule .leftParen) .initial
      ('(' :: (value.source quote ++ (moreSource quote values ++ ')' :: behind)))
      (value.source quote ++ (moreSource quote values ++ ')' :: behind))
      (IsShown .leftParen (· = [])) := accepts_mark rfl rfl rfl (isBehindGap_self hStops)
  have hValue : Accepts filterGrammar length (.rule .literal) .initial
      (value.source quote ++ (moreSource quote values ++ ')' :: behind))
      (moreSource quote values ++ ')' :: behind) (BuildsLiteral value) :=
    accepts_literal hValueRegular hValueSpellable (stopsAt_moreSource rfl)
      (isBehindGap_self (stopsAt_moreSource rfl))
  have hMore : Accepts filterGrammar length (.many (.seq (.rule .comma) (.rule .literal))) .initial
      (moreSource quote values ++ ')' :: behind) (')' :: behind) (BuildsMoreValues values) :=
    .many (continues_values hRegular hSpellable) (isBehindGap_self (stopsAt_moreSource rfl))
  have hRight : Accepts filterGrammar length (.rule .rightParen) .initial (')' :: behind) rest
      (IsShown .rightParen (· = [])) := accepts_mark rfl rfl rfl hGap
  rw [hText]
  apply (Accepts.normal (hLeft.seq (hValue.seq (hMore.seq hRight))) rfl rfl).mono
  rintro _ ⟨start, stop, _, rfl, _, _, rfl, ⟨_, _, _, rfl, rfl⟩, first, _, rfl, hFirst, more, _,
    rfl, hMoreValues, ⟨_, _, _, rfl, rfl⟩⟩
  refine ⟨start, stop, _, rfl, ?_⟩
  change literalsOf (.node .leftParen _ _ _ :: (first ++ (more ++ _))) = _
  rw [literalsOf_mark (by simp [Node.rule]), ← List.append_assoc, hFirst.builds_cons hMoreValues,
    literalsOf_mark (by simp [Node.rule]), literalsOf, Except.map, List.append_nil]

end Lists

end RowFilter
