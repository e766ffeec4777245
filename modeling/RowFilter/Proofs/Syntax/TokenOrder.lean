import RowFilter.Proofs.Grammar.Composed
import RowFilter.Proofs.Grammar.Order
import RowFilter.Proofs.Syntax.Built
import RowFilter.Proofs.Syntax.Lookahead
import RowFilter.Proofs.Syntax.Token

/-! A filter has the tokens of its text in their order. The matches of a text
show one token each where the text has it, and nothing of what they show is
lost, doubled or moved when a filter is built from them. -/

namespace RowFilter

open Grammar Text

namespace Token

/-- The token that a match is of. Most matches only hold others. -/
def ofNode? (node : Node Rule) : Option Token :=
  match node.rule with
  | .name => some (name node.text)
  | .number => some (number (Literal.ofNumber? node.text))
  | .string => some (string (quotedText node))
  | .comparisonSymbol => (Comparison.ofSymbol? node.text).map operator
  | rule => ofRule? rule

/-- The tokens of some matches and of the matches below them. -/
def ofNodes (nodes : List (Node Rule)) : List Token :=
  (Node.preorderAll nodes).filterMap ofNode?

variable {length : Nat} {nodes others : List (Node Rule)} {start stop : Cursor} {rest : List Token}

@[simp] theorem ofNodes_nil : ofNodes [] = [] := rfl

@[simp] theorem ofNodes_append : ofNodes (nodes ++ others) = ofNodes nodes ++ ofNodes others := by
  rw [ofNodes, Node.preorderAll_append, List.filterMap_append]
  rfl

theorem ofNodes_cons (node : Node Rule) (others : List (Node Rule)) :
    ofNodes (node :: others) = (ofNode? node).toList ++ (ofNodes node.parts ++ ofNodes others) := by
  obtain ⟨rule, start, stop, parts⟩ := node
  rw [ofNodes, Node.preorderAll_cons, List.filterMap_cons, List.filterMap_append]
  cases ofNode? (.node rule start stop parts) <;> rfl

/-- A match that only holds others. -/
theorem ofNodes_of_none {rule : Rule} {parts : List (Node Rule)}
    (h : ofNode? (.node rule start stop parts) = none) (others : List (Node Rule)) :
    ofNodes (.node rule start stop parts :: others) = ofNodes parts ++ ofNodes others := by
  rw [ofNodes_cons, h]
  rfl

section Matches

/-- The tokens of the text between two cursors are the tokens of the matches between them. -/
private def Lexes (start : Cursor) (nodes : List (Node Rule)) (stop : Cursor) : Prop :=
  readAll? start.rest = (readAll? stop.rest).map (ofNodes nodes ++ ·)

private theorem addsUp_lexes : AddsUp isGap Lexes where
  nil start := by simp [Lexes]
  gap start := by
    have hRest : (Mode.initial.skip isGap start).rest = start.rest.dropWhile isGap :=
      Mode.rest_skip ..
    simp [Lexes, hRest, readAll?_dropWhile_gap]
  append := by
    intro start middle stop nodes others hFirst hSecond
    rw [Lexes, hFirst, hSecond, Option.map_map]
    congr 1
    funext tokens
    simp

private theorem Lexes.shown {rule : Rule} (h : Lexes start nodes stop)
    (hNone : ofNode? (.node rule start stop nodes) = none) :
    Lexes start [.node rule start stop nodes] stop := by
  rwa [Lexes, ofNodes_of_none hNone, ofNodes_nil, List.append_nil]

private theorem lexes_token {rule : Rule} {token : Token}
    (hToken : ofNode? (.node rule start stop []) = some token)
    (h : readAll? start.rest = (readAll? stop.rest).map (token :: ·)) :
    Lexes start [.node rule start stop []] stop := by
  have hNodes : ofNodes [.node rule start stop []] = [token] := by
    rw [ofNodes_cons, hToken]
    rfl
  rw [Lexes, hNodes, h]
  rfl

private theorem lexes_lexeme {rule : Rule} (token : String → Token) (hKind : rule.kind = .atomic)
    (hToken : ∀ node : Node Rule, node.rule = rule → ofNode? node = some (token node.text))
    (hRead : ∀ {text taken rest}, filterGrammar.Takes length (.rule rule) text taken rest →
      readAll? text = (readAll? rest).map (token (String.ofList taken) :: ·))
    (h : filterGrammar.Matches length (.once (.rule rule)) .initial start nodes stop) :
    Lexes start nodes stop := by
  obtain ⟨taken, hTakes, hRest, rfl, rfl⟩ := h.of_atomic hKind rfl
  refine lexes_token ?_ (hRead hTakes)
  rw [hToken _ rfl, Node.text_of_past hRest]

private theorem lexes_comparisonSymbol
    (h : filterGrammar.Matches length (.once (.rule .comparisonSymbol)) .initial start nodes stop) :
    Lexes start nodes stop := by
  obtain ⟨taken, hTakes, hRest, rfl, rfl⟩ := h.of_atomic rfl rfl
  obtain ⟨comparison, rfl, hRead⟩ := readAll?_comparisonSymbol hTakes
  have hText : (Node.node Rule.comparisonSymbol start
      (start.past comparison.symbol.toList) []).text = comparison.symbol :=
    (Node.text_of_past hRest).trans String.ofList_toList
  refine lexes_token ?_ hRead
  change (Comparison.ofSymbol? (Node.text _)).map operator = _
  rw [hText, Comparison.ofSymbol?_symbol]
  rfl

private theorem lexes_string
    (h : filterGrammar.Matches length (.once (.rule .string)) .initial start nodes stop) :
    Lexes start nodes stop := by
  obtain ⟨quote, body, hBody, hRest, hStop, rfl⟩ := exists_quoted_of_matches h
  have hNodes : ofNodes [quotedNode quote body start] = [string (String.ofList body)] := by
    rw [ofNodes_cons, ← quotedText_quotedNode hRest]
    cases quote <;> rfl
  rw [Lexes, hNodes, hRest, readAll?_quoted hBody]
  rfl

private theorem lexes_word {rule : Rule} {token : Token} (hKind : rule.kind = .atomic)
    (hToken : ofRule? rule = some token)
    (h : filterGrammar.Matches length (.once (.rule rule)) .initial start nodes stop)
    (hNegation : rule = .keywordNot → firstWord (stop.rest.dropWhile isGap) ≠ "in".toList) :
    Lexes start nodes stop := by
  obtain ⟨taken, hTakes, hRest, rfl, rfl⟩ := h.of_atomic hKind rfl
  refine lexes_token ?_ (readAll?_word hKind hToken hNegation hTakes)
  cases rule <;> first | exact hToken | cases hToken

private theorem lexes_mark {rule : Rule} {token : Token} {word : String}
    (hKind : rule.kind = .normal) (hToken : ofRule? rule = some token)
    (hBody : rule.body = .literal word)
    (h : filterGrammar.Matches length (.once (.rule rule)) .initial start nodes stop) :
    Lexes start nodes stop := by
  obtain ⟨hRest, rfl, rfl⟩ := h.of_literal_rule hBody
  have hShows : filterGrammar.shows rule .initial = true := by
    simp [shows, filterGrammar, hKind, Mode.initial]
  rw [if_pos hShows]
  refine lexes_token ?_ (hRest ▸ readAll?_mark hKind hToken hBody _)
  cases rule <;> first | exact hToken | cases hToken

private theorem lexes_backtick
    (h : filterGrammar.Matches length (.once (.rule .backtick)) .initial start nodes stop) :
    Lexes start nodes stop := by
  obtain ⟨hRest, -, rfl⟩ := h.of_literal_rule rfl
  have hRead : readAll? start.rest = readAll? stop.rest := by
    rw [hRest]
    exact readAll?_backtick stop.rest
  rw [Lexes, hRead]
  exact Option.map_id_apply.symm

private def isConditionRule (rule : Rule) : Bool :=
  rule ∈ [.condition, .comparison, .nullCheck, .inList, .notInList, .operand, .literalList,
    .literal, .column, .name, .number, .string, .keywordIn, .keywordNotIn, .isNull, .isNotNull,
    .comparisonSymbol, .leftParen, .rightParen, .comma, .backtick]

private theorem keeps_conditionRule (rule : Rule) (h : isConditionRule rule = true) :
    Keeps filterGrammar length isConditionRule Lexes rule := by
  cases rule with
  | endOfInput | whitespace | filter | disjunction | conjunction | factor | group | negation
  | nameChar | reserved | sign | digits | exponent | doubleQuoted | singleQuoted | keywordAnd
  | keywordOr | keywordNot | gap => cases h
  | name => exact .leaf (lexes_lexeme name rfl (fun _ h => by rw [ofNode?, h]) readAll?_name)
  | number =>
    exact .leaf (lexes_lexeme (fun text => number (Literal.ofNumber? text)) rfl
      (fun _ h => by rw [ofNode?, h]) readAll?_number)
  | string => exact .leaf lexes_string
  | comparisonSymbol => exact .leaf lexes_comparisonSymbol
  | backtick => exact .leaf lexes_backtick
  | keywordIn | keywordNotIn | isNull | isNotNull =>
    exact .leaf fun h => lexes_word rfl rfl h nofun
  | leftParen | rightParen | comma => exact .leaf (lexes_mark rfl rfl rfl)
  | condition | comparison | nullCheck | inList | notInList | operand | literalList | literal
  | column => exact .composed rfl rfl fun h => h.shown rfl

private theorem lexes_condition
    (h : filterGrammar.Matches length (.once (.rule .condition)) .initial start nodes stop) :
    Lexes start nodes stop :=
  h.of_keeps addsUp_lexes keeps_conditionRule rfl

private theorem firstWord_ne_in
    (h : filterGrammar.Matches length (.once (.rule .condition)) .initial start nodes stop) :
    firstWord start.rest ≠ "in".toList := by
  obtain ⟨_, hReads, -⟩ := h
  rcases begins_of_reads_condition hReads with ⟨behind, hText⟩ | hBegins
  · rw [hText]
    exact nofun
  · exact firstWord_of_fails_reserved hBegins.fails_reserved "in" (by decide)

private theorem lexes_negation
    (h : filterGrammar.Matches length (.once (.rule .negation)) .initial start nodes stop) :
    Lexes start nodes stop := by
  obtain ⟨parts, hParts, rfl⟩ := h.of_rule
  obtain ⟨keyword, middle, condition, hKeyword, hCondition, rfl⟩ := hParts.of_seq
  have hNext := firstWord_ne_in hCondition
  rw [Mode.rest_skip] at hNext
  have hWord : Lexes start keyword middle := lexes_word rfl rfl hKeyword fun _ => hNext
  have hAll := addsUp_lexes.append (addsUp_lexes.append hWord (addsUp_lexes.gap middle))
    (lexes_condition hCondition)
  rw [List.append_nil] at hAll
  exact hAll.shown rfl

private def isFilterRule (rule : Rule) : Bool :=
  rule ∈ [.endOfInput, .filter, .disjunction, .conjunction, .factor, .group, .negation, .condition,
    .keywordAnd, .keywordOr, .leftParen, .rightParen]

private theorem keeps_filterRule (rule : Rule) (h : isFilterRule rule = true) :
    Keeps filterGrammar length isFilterRule Lexes rule := by
  cases rule with
  | negation => exact .leaf lexes_negation
  | condition => exact .leaf lexes_condition
  | keywordAnd | keywordOr => exact .leaf fun h => lexes_word rfl rfl h nofun
  | leftParen | rightParen => exact .leaf (lexes_mark rfl rfl rfl)
  | endOfInput | filter | disjunction | conjunction | factor | group =>
    exact .composed rfl rfl fun h => h.shown rfl
  | _ => cases h

/-- The tokens of a disjunction in a text stand before the tokens behind it. -/
theorem readAll?_of_disjunction
    (h : filterGrammar.Matches length (.once (.rule .disjunction)) .initial start nodes stop) :
    readAll? start.rest = (readAll? stop.rest).map (ofNodes nodes ++ ·) :=
  h.of_keeps addsUp_lexes keeps_filterRule rfl

end Matches

section Builder

variable {node : Node Rule}

private theorem ofNodes_leaf {rule : Rule} (h : IsLeaf length rule node)
    (others : List (Node Rule)) :
    ofNodes (node :: others) = (ofNode? node).toList ++ ofNodes others := by
  rw [ofNodes_cons, h.parts_eq]
  rfl

private theorem ofNodes_name (h : IsLeaf length .name node) (others : List (Node Rule)) :
    ofNodes (node :: others) = name (Column.ofNode node).name :: ofNodes others := by
  rw [ofNodes_leaf h, ofNode?, h.rule_eq]
  rfl

private theorem ofNodes_ofRule {rule : Rule} {token : Token} (h : IsLeaf length rule node)
    (hToken : ofRule? rule = some token) (others : List (Node Rule)) :
    ofNodes (node :: others) = token :: ofNodes others := by
  rw [ofNodes_leaf h, ofNode?, h.rule_eq]
  cases rule <;> cases hToken <;> rfl

private theorem ofNodes_literal {value : Literal} (h : LiteralOf length value node)
    (others : List (Node Rule)) : ofNodes (node :: others) = value.token :: ofNodes others := by
  cases h with
  | number hNode hLiteral =>
    rw [ofNodes_leaf hNode, ofNode?, hNode.rule_eq]
    dsimp only
    rw [hLiteral]
    rcases Literal.ofNumber?_cases hLiteral with ⟨n, rfl⟩ | ⟨x, rfl, -⟩ <;> rfl
  | string hNode =>
    obtain ⟨part, hParts, hPart⟩ := hNode.exists_part
    have hInside : ofNodes node.parts = [] := by
      rw [hParts]
      rcases hPart with hPart | hPart <;> rw [ofNodes_leaf hPart, ofNode?, hPart.rule_eq] <;> rfl
    rw [ofNodes_cons, hInside, ofNode?, hNode.rule_eq]
    rfl

private theorem ofNodes_operand {right : Operand} (h : OperandOf length right node)
    (others : List (Node Rule)) : ofNodes (node :: others) = right.token :: ofNodes others := by
  cases h with
  | literal hValue => exact ofNodes_literal hValue others
  | column hName => exact ofNodes_name hName others

private theorem ofNodes_moreValues {values : List Literal} (h : MoreValuesOf length values nodes)
    (others : List (Node Rule)) :
    ofNodes (nodes ++ others) = values.flatMap ([comma, ·.token]) ++ ofNodes others := by
  induction h with
  | last => rfl
  | more hComma hValue _ ih =>
    rw [List.cons_append, List.cons_append, ofNodes_ofRule hComma rfl, ofNodes_literal hValue, ih]
    rfl

private theorem intersperse_comma (value : Literal) (values : List Literal) :
    ((value :: values).map Literal.token).intersperse comma =
      value.token :: values.flatMap ([comma, ·.token]) := by
  induction values generalizing value with
  | nil => rfl
  | cons next values ih => simpa using ih next

private theorem ofNodes_values {values : List Literal} (h : ValuesOf length values nodes) :
    ofNodes nodes =
      leftParen :: ((values.map Literal.token).intersperse comma ++ [rightParen]) := by
  cases h with
  | values hLeft hValue hOthers hRight =>
    rw [ofNodes_ofRule hLeft rfl, ofNodes_literal hValue, ofNodes_moreValues hOthers,
      ofNodes_ofRule hRight rfl, intersperse_comma]
    rfl

private theorem ofNodes_condition {c : Condition} (h : ConditionOf length c node)
    (others : List (Node Rule)) : ofNodes (node :: others) = c.tokens ++ ofNodes others := by
  cases h with
  | @comparison column symbol node start stop operator right hColumn hSymbol hOperator hRight =>
    have hToken : ofNode? symbol = some (.operator operator) := by
      rw [ofNode?, hSymbol.rule_eq]
      dsimp only
      rw [hOperator]
      rfl
    rw [ofNodes_of_none rfl, ofNodes_name hColumn, ofNodes_leaf hSymbol, hToken,
      ofNodes_operand hRight]
    rfl
  | isNull hColumn hTest | isNotNull hColumn hTest =>
    rw [ofNodes_of_none rfl, ofNodes_name hColumn, ofNodes_ofRule hTest rfl]
    rfl
  | inList hColumn hKeyword hValues | notInList hColumn hKeyword hValues =>
    rw [ofNodes_of_none rfl, ofNodes_name hColumn, ofNodes_ofRule hKeyword rfl,
      ofNodes_of_none rfl, ofNodes_values hValues, ofNodes_nil, List.append_nil]
    rfl

/-- Whether a token stands in a filter wherever it stands in a text. -/
private def isPlain : Token → Bool
  | leftParen | rightParen | membership _ => false
  | _ => true

private theorem dropGroups_append {tokens : List Token} (inList : Bool)
    (h : ∀ token ∈ tokens, isPlain token = true) :
    dropGroups inList (tokens ++ rest) = tokens ++ dropGroups inList rest := by
  induction tokens with
  | nil => rfl
  | cons token tokens ih =>
    obtain ⟨hToken, hTokens⟩ := List.forall_mem_cons.1 h
    rw [List.cons_append, List.cons_append, ← ih hTokens]
    cases token with
    | leftParen | rightParen | membership => cases hToken
    | _ => rw [dropGroups] <;> nofun

private theorem isPlain_literal (value : Literal) : isPlain value.token = true := by
  cases value <;> rfl

private theorem isPlain_values (values : List Literal) :
    ∀ token ∈ (values.map Literal.token).intersperse comma, isPlain token = true := by
  cases values with
  | nil => exact nofun
  | cons value values =>
    rw [intersperse_comma]
    refine List.forall_mem_cons.2 ⟨isPlain_literal value, fun token hMem => ?_⟩
    obtain ⟨other, -, hToken⟩ := List.mem_flatMap.1 hMem
    simp only [List.mem_cons, List.not_mem_nil, or_false] at hToken
    rcases hToken with rfl | rfl
    · rfl
    · exact isPlain_literal other

private theorem dropGroups_condition (c : Condition) (rest : List Token) :
    dropGroups false (c.tokens ++ rest) = c.tokens ++ dropGroups false rest := by
  cases c with
  | comparison left operator right =>
    refine dropGroups_append false (List.forall_mem_cons.2 ⟨rfl, List.forall_mem_cons.2 ⟨rfl, ?_⟩⟩)
    cases right with
    | column => exact List.forall_mem_singleton.2 rfl
    | literal value => exact List.forall_mem_singleton.2 (isPlain_literal value)
  | nullCheck => rfl
  | membership column negated values =>
    have hInside : dropGroups true ((values.map Literal.token).intersperse comma ++
        rightParen :: rest) = _ := dropGroups_append true (isPlain_values values)
    change name _ :: membership _ :: leftParen :: dropGroups true
      ((values.map Literal.token).intersperse comma ++ [rightParen] ++ rest) = _
    rw [List.append_assoc, List.singleton_append, hInside]
    simp [Condition.tokens, dropGroups]

/-- A filter has the tokens of the matches that it is built from, without the parentheses of
groups. -/
theorem dropGroups_ofNodes {f : Filter} (h : BuiltFrom length f nodes)
    (rest : List Token) :
    dropGroups false (ofNodes nodes ++ rest) = f.tokens ++ dropGroups false rest := by
  induction h generalizing rest with
  | condition hNode =>
    rw [ofNodes_condition hNode, ofNodes_nil, List.append_nil]
    exact dropGroups_condition _ rest
  | negation hKeyword hNode =>
    rw [ofNodes_of_none rfl, ofNodes_ofRule hKeyword rfl, ofNodes_condition hNode, ofNodes_nil,
      List.append_nil, List.append_nil]
    exact congrArg (negation :: ·) (dropGroups_condition _ rest)
  | group hLeft _ hRight ih =>
    rw [ofNodes_ofRule hLeft rfl, ofNodes_of_none rfl, ofNodes_ofRule hRight rfl, ofNodes_nil,
      List.cons_append, List.append_assoc]
    exact ih (rightParen :: rest)
  | conjunction _ ih =>
    rw [ofNodes_of_none rfl, ofNodes_nil, List.append_nil]
    exact ih rest
  | @join c left right keyword before behind span hLeft hKeyword hRight ihLeft ihRight =>
    have hToken : ofRule? c.keyword = some (connective c) := by cases c <;> rfl
    rw [ofNodes_append, ofNodes_ofRule hKeyword hToken, List.append_assoc, ihLeft]
    change _ ++ connective c :: dropGroups false (ofNodes behind ++ rest) = _
    rw [ihRight]
    cases c <;> simp [Connective.join, Filter.tokens]

end Builder

end Token

/-- Where the parts of a filter stand does not count for its tokens. -/
theorem Filter.tokens_eraseSpans (filter : Filter) :
    filter.eraseSpans.tokens = filter.tokens := by
  induction filter with
  | condition c =>
    cases c with
    | comparison left operator right => cases right <;> rfl
    | nullCheck | membership => rfl
  | and left right _ ihLeft ihRight | or left right _ ihLeft ihRight =>
    rw [eraseSpans, tokens, tokens, ihLeft, ihRight]
  | not operand _ ih => rw [eraseSpans, tokens, tokens, ih]

/-- A filter that a text spells has the tokens of the text, in their order. -/
theorem Filter.tokens_of_parse {source : String} {filter : Filter}
    (h : parse source = .ok filter) : Token.ofText? source.toList = some filter.tokens := by
  obtain ⟨start, stop, parts, hStart, hMatches, hStop, hBuilt⟩ := exists_builtFrom_of_parse h
  have hEnd : Token.readAll? stop.rest = some [] := by
    rw [← Token.readAll?_dropWhile_gap]
    refine (congrArg Token.readAll? hStop).trans ?_
    rw [Token.readAll?]
  have hRead : Token.readAll? source.toList = some (Token.ofNodes parts) := by
    rw [← Token.readAll?_dropWhile_gap]
    refine (congrArg Token.readAll? hStart.symm).trans ?_
    rw [Token.readAll?_of_disjunction hMatches, hEnd, Token.ofNodes_of_none rfl, Token.ofNodes_nil,
      List.append_nil, Option.map_some, List.append_nil]
  have hTokens := Token.dropGroups_ofNodes hBuilt []
  rw [List.append_nil] at hTokens
  rw [Token.ofText?, hRead, Option.map_some, hTokens]
  exact congrArg some (List.append_nil _)

/-- Words in any case, backticks, a group, a list and quotes within quotes. -/
theorem Filter.tokens_of_parse_mixed :
    ∃ filter, parse "NoT `a`  not IN(1, 'it\\'s') aNd (b.c >= \"x\")" = .ok filter ∧
      Token.ofText? "NoT `a`  not IN(1, 'it\\'s') aNd (b.c >= \"x\")".toList = some filter.tokens ∧
      filter.tokens = [.negation, .name "a", .membership true, .leftParen,
        .number (some (.integer 1)), .comma, .string "it\\'s", .rightParen, .connective .and,
        .name "b.c", .operator .greaterOrEqual, .string "x"] := by
  obtain ⟨filter, hParse, hErase⟩ : ∃ read,
      parse "NoT `a`  not IN(1, 'it\\'s') aNd (b.c >= \"x\")" = .ok read ∧
      read.eraseSpans = .and
        (.not (.condition (.membership ⟨"a", .none⟩ true [.integer 1, .text "it\\'s"]) .none) .none)
        (.condition (.comparison ⟨"b.c", .none⟩ .greaterOrEqual (.literal (.text "x"))) .none)
        .none :=
    exists_parse_of_eraseSpans (by decide +kernel)
  refine ⟨filter, hParse, tokens_of_parse hParse, ?_⟩
  rw [← tokens_eraseSpans, hErase]
  rfl

end RowFilter
