import RowFilter.Postgres.Query
import RowFilter.Proofs.Decimal.Layout
import RowFilter.Proofs.Postgres.Reading

/-! The tokens of a whole statement. Names and texts end where the writer
ended them, whatever they hold, so each clause is read as the tokens it was
written from. -/

namespace RowFilter

open Text

namespace ReadQuery

/-- The pieces of a text are those of the list of its characters. -/
theorem splitAt_eq_splitOn (separator : Char) (text : String) :
    splitAt separator text = (text.toList.splitOn separator).map String.ofList := by
  have hSplit (seen text : List Char) : splitFrom separator seen text =
      (text.splitOnPPrepend (· == separator) seen).map String.ofList := by
    induction text generalizing seen with
    | nil => rfl
    | cons c text ih =>
      rw [splitFrom, List.splitOnPPrepend_cons_eq_if]
      by_cases hC : c = separator
      · rw [if_pos hC, if_pos (beq_iff_eq.2 hC), List.map_cons, ih]
        rfl
      · rw [if_neg hC, if_neg (by simpa using hC), ih]
  exact hSplit [] text.toList

/-- The pieces of a text make up the text. -/
theorem intercalate_splitAt (separator : Char) (text : String) :
    (String.singleton separator).intercalate (splitAt separator text) = text := by
  have hPieces : String.toList ∘ String.ofList = id := funext fun _ => String.toList_ofList
  apply String.toList_inj.1
  rw [String.toList_intercalate, String.toList_singleton, splitAt_eq_splitOn, List.map_map, hPieces,
    List.map_id, List.intercalate_splitOn]

private theorem not_mem_of_mem_splitFrom {separator : Char} {seen text : List Char} {piece : String}
    (hSeen : separator ∉ seen) (h : piece ∈ splitFrom separator seen text) :
    separator ∉ piece.toList := by
  induction text generalizing seen with
  | nil =>
    obtain rfl := List.mem_singleton.1 h
    simpa using hSeen
  | cons c text ih =>
    rw [splitFrom] at h
    split at h
    · rcases List.mem_cons.1 h with rfl | h
      · simpa using hSeen
      · exact ih List.not_mem_nil h
    · next hNe => exact ih (by simp [hSeen, Ne.symm hNe]) h

/-- No piece of a text has the separator in it. -/
theorem not_mem_of_mem_splitAt {separator : Char} {text piece : String}
    (h : piece ∈ splitAt separator text) : separator ∉ piece.toList :=
  not_mem_of_mem_splitFrom List.not_mem_nil h

private theorem splitAt_ne_nil (separator : Char) (text : String) : splitAt separator text ≠ [] :=
  fun hNil => List.splitOn_ne_nil separator text.toList
    (List.map_eq_nil_iff.1 (splitAt_eq_splitOn separator text ▸ hNil))

end ReadQuery

namespace Postgres

/-- Identifiers with a mark between them. -/
def separated (mark : String) (names : List String) : List Token :=
  (names.map .identifier).intersperse (.symbol mark)

def count (n : Nat) : Token :=
  .number ⟨false, Nat.toDigits 10 n, none, none⟩

def selectionTokens (columns : List String) : List Token :=
  if columns.isEmpty then [.symbol "*"] else separated "," columns

def limitTokens (n : Nat) : List Token := [.word "LIMIT", count n]

def sampleTokens (n : Nat) : List Token :=
  [.word "ORDER", .word "BY", .word "RANDOM", .symbol "(", .symbol ")"] ++ limitTokens n

def boundTokens : Option UInt64 → Option UInt64 → List Token
  | some limit, some sample => sampleTokens (min limit sample).toNat
  | none, some sample => sampleTokens sample.toNat
  | some limit, none => limitTokens limit.toNat
  | none, none => []

private theorem lexes_separated {mark between : String} {names : List String}
    (hNonempty : names ≠ [])
    (hMark : ∀ name text tokens, Lexes ('"' :: text) tokens →
      Lexes ((identifier name).toList ++ (between.toList ++ '"' :: text))
        (.identifier name :: .symbol mark :: tokens)) :
    Lexes (between.intercalate (names.map identifier)).toList (separated mark names) := by
  induction names with
  | nil => exact absurd rfl hNonempty
  | cons name names ih =>
    cases names with
    | nil =>
      rw [List.map_singleton, String.intercalate_singleton]
      exact lexes_identifier name
    | cons next names =>
      have hNames := ih (List.cons_ne_nil _ _)
      obtain ⟨text, hText⟩ :
          ∃ text, (between.intercalate ((next :: names).map identifier)).toList = '"' :: text := by
        cases names <;> exact ⟨_, by simp [identifier, quoted]; rfl⟩
      rw [hText] at hNames
      rw [List.map_cons, List.map_cons, String.intercalate_cons_cons, ← List.map_cons,
        String.toList_append, String.toList_append, List.append_assoc, hText]
      exact hMark name text _ hNames

private theorem Lexes.dotted (name : String) {text : List Char} {tokens : List Token}
    (h : Lexes ('"' :: text) tokens) :
    Lexes ((identifier name).toList ++ '.' :: '"' :: text)
      (.identifier name :: .symbol "." :: tokens) := by
  intro rest hRest
  have hName : next? ((identifier name).toList ++ '.' :: '"' :: (text ++ rest)) =
      some (.identifier name, '.' :: '"' :: (text ++ rest)) :=
    next?_identifier_of_stopsAt name rfl
  have hDot : next? (['.'] ++ '"' :: (text ++ rest)) = some (.symbol ".", '"' :: (text ++ rest)) :=
    rfl
  have hDotted := tokens?_of_next? (List.cons_ne_nil _ _) hDot
  rw [List.singleton_append, ← List.cons_append, h rest hRest] at hDotted
  rw [List.append_assoc, List.cons_append, List.cons_append,
    tokens?_of_next? (by simp [identifier, quoted]) hName, ← List.cons_append, hDotted,
    Option.map_map, Option.map_map]
  rfl

/-- Names between dots are read name by name. -/
theorem lexes_path {names : List String} (hNonempty : names ≠ []) :
    Lexes (".".intercalate (names.map identifier)).toList (separated "." names) :=
  lexes_separated hNonempty fun name _ _ hNames => hNames.dotted name

/-- Columns are read one by one. -/
theorem lexes_columns {names : List String} (hNonempty : names ≠ []) :
    Lexes (", ".intercalate (names.map identifier)).toList (separated "," names) :=
  lexes_separated hNonempty fun name _ _ hNames =>
    (lexes_identifier name).append (.punctuation (.inr (.inr rfl)) hNames.blank) rfl

theorem lexes_count (n : Nat) : Lexes (toString n).toList [count n] := by
  let spelling : Spelling :=
    ⟨.none, Nat.toDigits 10 n, none, none, isDigits_toDigits n, nofun, .inl (by simp)⟩
  have hText : (toString n).toList = spelling.text := by
    simp [Spelling.text, spelling, Sign.text, fractionText, exponentText]
  rw [hText]
  exact lexes_number spelling

private theorem lexes_star : Lexes "*".toList [.symbol "*"] :=
  .token (by decide) fun _ hRest => next?_operator rfl (by decide) hRest

private theorem lexes_random :
    Lexes "RANDOM()".toList [.word "RANDOM", .symbol "(", .symbol ")"] := by
  intro rest hRest
  have hWord : next? ("RANDOM".toList ++ '(' :: ')' :: rest) =
      some (.word "RANDOM", '(' :: ')' :: rest) := rfl
  have hMarks : tokens? ('(' :: ')' :: rest) =
      (tokens? rest).map ([.symbol "(", .symbol ")"] ++ ·) :=
    Lexes.punctuation (.inl rfl) (.punctuation (.inr (.inl rfl)) .nil) rest hRest
  change tokens? ("RANDOM".toList ++ '(' :: ')' :: rest) = _
  rw [tokens?_of_next? (by decide) hWord, hMarks, Option.map_map]
  rfl

theorem lexes_selection (columns : List String) :
    Lexes (ReadQuery.selection columns).toList (selectionTokens columns) := by
  rw [ReadQuery.selection, selectionTokens]
  cases columns with
  | nil => exact lexes_star
  | cons name names => exact lexes_columns (List.cons_ne_nil name names)

private theorem lexes_limit (n : Nat) :
    Lexes (' ' :: ("LIMIT".toList ++ ' ' :: (toString n).toList)) (limitTokens n) :=
  ((lexes_word "LIMIT" rfl).append (lexes_count n).blank rfl).blank

private theorem lexes_sample (n : Nat) :
    Lexes (' ' :: ("ORDER".toList ++ ' ' :: ("BY".toList ++ ' ' :: ("RANDOM()".toList ++
        ' ' :: ("LIMIT".toList ++ ' ' :: (toString n).toList))))) (sampleTokens n) := by
  have hRandom := (lexes_random.append (lexes_limit n) rfl).blank
  have hBy := ((lexes_word "BY" rfl).append hRandom rfl).blank
  exact ((lexes_word "ORDER" rfl).append hBy rfl).blank

private theorem lexes_bounds (limit sample : Option UInt64) :
    Lexes (ReadQuery.bounds limit sample).toList (boundTokens limit sample) ∧
      StopsAt (!isDelimiter ·) (ReadQuery.bounds limit sample).toList := by
  have hSample (n : Nat) :
      Lexes (" ORDER BY RANDOM() LIMIT " ++ toString n).toList (sampleTokens n) ∧
        StopsAt (!isDelimiter ·) (" ORDER BY RANDOM() LIMIT " ++ toString n).toList := by
    rw [String.toList_append]
    exact ⟨lexes_sample n, rfl⟩
  have hLimit (n : Nat) : Lexes (" LIMIT " ++ toString n).toList (limitTokens n) ∧
      StopsAt (!isDelimiter ·) (" LIMIT " ++ toString n).toList := by
    rw [String.toList_append]
    exact ⟨lexes_limit n, rfl⟩
  cases limit with
  | none =>
    cases sample with
    | none => exact ⟨.nil, trivial⟩
    | some sample => exact hSample sample.toNat
  | some limit =>
    cases sample with
    | none => exact hLimit limit.toNat
    | some sample => exact hSample (min limit sample).toNat

/-- The tokens of a `WHERE` clause are those of its condition. -/
def IsWhereClause : Option String → List Token → Prop
  | none, tokens => tokens = []
  | some source, tokens => ∃ f condition, Filter.parse source = .ok f ∧
      tokens? f.toPostgres.toList = some condition ∧ tokens = .word "WHERE" :: condition

private theorem exists_whereClause {filter : Option String}
    (h : ∀ source ∈ filter, ∃ f, Filter.parse source = .ok f) :
    ∃ clause tokens, ReadQuery.whereClause filter = .ok clause ∧
      Lexes clause.toList tokens ∧ StopsAt (!isDelimiter ·) clause.toList ∧
      IsWhereClause filter tokens := by
  cases filter with
  | none => exact ⟨"", [], rfl, .nil, trivial, rfl⟩
  | some source =>
    obtain ⟨f, hParse⟩ := h source rfl
    obtain ⟨condition, -, hLexes, -⟩ :=
      spells_disjunct (spells_toPostgres (Filter.isRegular_of_parse hParse))
    refine ⟨" WHERE " ++ f.toPostgres, _, ?_, ?_, ?_, f, condition, hParse, hLexes.tokens?_eq, rfl⟩
    · rw [ReadQuery.whereClause, hParse]
      rfl
    · rw [String.toList_append]
      exact ((lexes_word "WHERE" rfl).append hLexes.blank rfl).blank
    · rw [String.toList_append]
      rfl

end Postgres

namespace ReadQuery

open Postgres

/-- A query whose filter has no error has a statement. The statement is read as
`SELECT` and the columns, the segments of the table and the clauses that were
asked for, whatever characters are in names and texts: no name or text adds a
token. -/
theorem toSql_tokens {query : ReadQuery}
    (hFilter : ∀ source ∈ query.filter, ∃ f, Filter.parse source = .ok f) :
    ∃ sql segments clause, query.toSql = .ok sql ∧
      ".".intercalate segments = query.table ∧ (∀ segment ∈ segments, '.' ∉ segment.toList) ∧
      IsWhereClause query.filter clause ∧
      tokens? sql.toList = some (.word "SELECT" ::
        ((if query.distinct then [.word "DISTINCT"] else []) ++ (selectionTokens query.columns ++
          .word "FROM" :: (separated "." segments ++ (clause ++
            boundTokens query.limit query.sample))))) := by
  obtain ⟨clause, clauseTokens, hClause, hClauseLexes, hClauseStops, hTokens⟩ :=
    exists_whereClause hFilter
  obtain ⟨hBounds, hBoundsStops⟩ := lexes_bounds query.limit query.sample
  have hEnd := hClauseLexes.append hBounds hBoundsStops
  have hTable := (lexes_path (splitAt_ne_nil '.' query.table)).append hEnd
    (hClauseStops.append hBoundsStops)
  have hFrom := ((lexes_word "FROM" rfl).append hTable.blank rfl).blank
  have hColumns := ((lexes_selection query.columns).append hFrom rfl).blank
  have hSql : query.toSql = .ok ("SELECT " ++ (if query.distinct then "DISTINCT " else "") ++
      selection query.columns ++ " FROM " ++ quoteTable query.table ++ clause ++
        bounds query.limit query.sample) := by
    rw [toSql, hClause]
    rfl
  refine ⟨_, splitAt '.' query.table, clauseTokens, hSql, intercalate_splitAt '.' query.table,
    fun _ => not_mem_of_mem_splitAt, hTokens, ?_⟩
  apply Lexes.tokens?_eq
  simp only [String.toList_append, List.append_assoc]
  cases query.distinct with
  | false => exact (lexes_word "SELECT" rfl).append hColumns rfl
  | true =>
    have hDistinct := ((lexes_word "DISTINCT" rfl).append hColumns rfl).blank
    exact (lexes_word "SELECT" rfl).append hDistinct rfl

/-- A query with all clauses and with quotes, dots and commas in its names. -/
theorem toSql_tokens_quotes :
    let query : ReadQuery := ⟨"my.\"t\" --", ["a\"; b", "c.d, e"],
      some "x = \"it's\" AND y IS NULL", true, some 5, some 3⟩
    ∃ sql segments clause, query.toSql = .ok sql ∧ ".".intercalate segments = query.table ∧
      IsWhereClause query.filter clause ∧
      tokens? sql.toList = some (.word "SELECT" :: .word "DISTINCT" :: .identifier "a\"; b" ::
        .symbol "," :: .identifier "c.d, e" :: .word "FROM" :: (separated "." segments ++ (clause ++
          [.word "ORDER", .word "BY", .word "RANDOM", .symbol "(", .symbol ")", .word "LIMIT",
            count 3]))) := by
  intro query
  have hParse : (Filter.parse "x = \"it's\" AND y IS NULL").toOption.isSome = true := by
    decide +kernel
  have hFilter : ∀ source ∈ query.filter, ∃ f, Filter.parse source = .ok f := by
    rintro source ⟨⟩
    cases hRead : Filter.parse "x = \"it's\" AND y IS NULL" with
    | ok f => exact ⟨f, rfl⟩
    | error => simp [hRead, Except.toOption] at hParse
  obtain ⟨sql, segments, clause, hSql, hTable, -, hClause, hTokens⟩ := toSql_tokens hFilter
  exact ⟨sql, segments, clause, hSql, hTable, hClause, hTokens⟩

end ReadQuery

end RowFilter
