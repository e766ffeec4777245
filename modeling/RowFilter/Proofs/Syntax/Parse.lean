import RowFilter.Proofs.Filter.Spans
import RowFilter.Proofs.Syntax.Build
import RowFilter.Proofs.Syntax.Nesting
import RowFilter.Syntax.Parse

/-! What reading a filter comes to. A text has too many open parentheses, or
is no filter by the grammar, or has a number that is too large, or else
spells a filter. No other fault is ever reported. -/

namespace RowFilter

open Grammar Text

/-- The match of a whole text as a filter. -/
def IsFilterMatch (text : List Char) (root : Node Rule) : Prop :=
  ∃ stop, filterGrammar.Matches text.length (.once (.rule .filter)) .initial (.ofText text)
    [root] stop

/-- A number within a match that is too large for a floating-point number. -/
structure IsTooLargeIn (root number : Node Rule) : Prop where
  mem_preorder : number ∈ root.preorder
  rule_eq : number.rule = .number
  isTooLarge : isTooLarge number.text = true

/-- The first number within a match that is too large. All others like it
begin behind it. -/
structure IsFirstTooLarge (root number : Node Rule) : Prop extends IsTooLargeIn root number where
  stop_le : ∀ other, IsTooLargeIn root other →
    other = number ∨ number.stop.offset ≤ other.start.offset

variable {text : List Char} {root : Node Rule}

/-- A text matches as a filter in one way. -/
theorem IsFilterMatch.unique {other : Node Rule} (h : IsFilterMatch text root)
    (hOther : IsFilterMatch text other) : root = other := by
  obtain ⟨_, hRoot⟩ := h
  obtain ⟨_, hOther⟩ := hOther
  exact (List.cons.inj (hRoot.unique hOther)).1

/-- The filter of a whole text is the one of its disjunction. -/
theorem Filter.ofNodes_eq_ok {node : Node Rule} {others : List (Node Rule)} {filter : Filter}
    (hParts : root.parts = node :: others) (hRule : node.rule = .disjunction) :
    ofNodes text [root] = .ok filter ↔ ofNode node = .ok filter := by
  have hFind : (node :: others).find? (·.rule = .disjunction) = some node :=
    List.find?_cons_of_pos (decide_eq_true hRule)
  simp only [ofNodes, List.head?_cons, Option.map_some, Option.getD_some, hParts, hFind]
  cases ofNode node <;> simp

/-- A number exceeds the range exactly if it is too large. -/
theorem exceedsRange_iff {number : Node Rule} (hMem : number ∈ root.preorder) :
    exceedsRange number = true ↔ IsTooLargeIn root number := by
  rw [exceedsRange, Bool.and_eq_true, decide_eq_true_eq]
  exact ⟨fun h => ⟨hMem, h.1, h.2⟩, fun h => ⟨h.rule_eq, h.isTooLarge⟩⟩

/-- No first number is found exactly if none is too large. -/
theorem firstTooLarge_eq_none : firstTooLarge [root] = none ↔ ¬∃ number, IsTooLargeIn root number := by
  rw [firstTooLarge, Node.preorderAll_singleton, List.find?_eq_none]
  constructor
  · rintro hNone ⟨number, hNumber⟩
    exact hNone number hNumber.mem_preorder ((exceedsRange_iff hNumber.mem_preorder).2 hNumber)
  · intro hNone number hMem hExceeds
    exact hNone ⟨number, (exceedsRange_iff hMem).1 hExceeds⟩

/-- Numbers have no parts, so the first one in preorder ends before the others. -/
theorem IsFilterMatch.isFirstTooLarge {number : Node Rule} (h : IsFilterMatch text root)
    (hFirst : firstTooLarge [root] = some number) : IsFirstTooLarge root number := by
  obtain ⟨stop, hMatches⟩ := h
  have hOrder := hMatches.pairwise_preorderAll
  rw [Node.preorderAll_singleton] at hOrder
  rw [firstTooLarge, Node.preorderAll_singleton] at hFirst
  obtain ⟨hExceeds, before, after, hSplit, hBefore⟩ := List.find?_eq_some_iff_append.1 hFirst
  have hMem : number ∈ root.preorder := by
    rw [hSplit]
    exact List.mem_append_right _ List.mem_cons_self
  have hNumber := (exceedsRange_iff hMem).1 hExceeds
  have hParts : number.parts = [] := by
    refine hMatches.parts_eq_nil ?_ (by rw [hNumber.rule_eq]; rfl)
    rwa [Node.preorderAll_singleton]
  refine ⟨hNumber, fun other hOther => ?_⟩
  have hOtherMem := hOther.mem_preorder
  rw [hSplit, List.mem_append, List.mem_cons] at hOtherMem
  rcases hOtherMem with hOtherMem | rfl | hOtherMem
  · have hNot := hBefore other hOtherMem
    rw [(exceedsRange_iff hOther.mem_preorder).2 hOther] at hNot
    cases hNot
  · exact .inl rfl
  · rw [hSplit] at hOrder
    have hPrecedes := (List.pairwise_cons.1 (List.pairwise_append.1 hOrder).2.1).1 other hOtherMem
    exact .inr (hPrecedes.resolve_left fun h => h hParts)

/-- A whole text is the match of one disjunction with gaps around it. -/
theorem IsFilterMatch.exists_parts (h : IsFilterMatch text root) :
    ∃ start stop parts endStart endStop, start.StandsIn text ∧
      start.rest = Mode.initial.behindGap isGap text ∧
      filterGrammar.Matches text.length (.once (.rule .disjunction)) .initial start
        [.node .disjunction start stop parts] stop ∧
      Mode.initial.behindGap isGap stop.rest = [] ∧ root.rule = .filter ∧
      root.parts =
        [.node .disjunction start stop parts, .node .endOfInput endStart endStop []] := by
  obtain ⟨_, hMatches⟩ := h
  obtain ⟨_, hParts, hRoot⟩ := hMatches.of_rule
  obtain ⟨_, _, _, hStart, hOthers, rfl⟩ := hParts.of_seq
  obtain ⟨_, _, _, hDisjunction, hEnd, rfl⟩ := hOthers.of_seq
  obtain ⟨rfl, rfl⟩ := hStart.of_atStart
  obtain ⟨_, hEndParts, rfl⟩ := hEnd.of_rule
  obtain ⟨rfl, hRest⟩ := hEndParts.of_atEnd
  obtain ⟨operands, rfl, -⟩ := exists_hasShape hDisjunction
  obtain rfl := (List.cons.inj hRoot).1
  rw [Mode.rest_skip] at hRest
  obtain ⟨hGap, hStands⟩ := Mode.initial.skip_standsIn isGap (.ofText text)
  exact ⟨_, _, operands, _, _, hStands, hGap, hDisjunction, hRest, rfl, rfl⟩

/-- The match of a filter holds one disjunction, which builds the filter. -/
theorem IsFilterMatch.exists_disjunction (h : IsFilterMatch text root) :
    ∃ disjunction, root.parts.find? (·.rule = .disjunction) = some disjunction ∧
      Builds [root] Filter.IsRegular (Filter.ofNode disjunction) := by
  obtain ⟨start, stop, parts, endStart, endStop, -, -, hDisjunction, -, hRule, hRoot⟩ :=
    h.exists_parts
  obtain ⟨rule, rootStart, rootStop, rootParts⟩ := root
  obtain rfl : rule = .filter := hRule
  obtain rfl : rootParts = _ := hRoot
  obtain ⟨operands, hNodes, hShape⟩ := exists_hasShape hDisjunction
  obtain rfl : parts = operands := by simpa using hNodes
  refine ⟨.node .disjunction start stop parts, rfl, ?_⟩
  rw [Filter.ofNode]
  apply (hShape.builds .or _).congr
  rw [firstTooLarge_cons (by decide), List.append_nil, firstTooLarge_cons (by decide),
    firstTooLarge_append]
  exact Option.or_none

/-- The first number that is too large is at fault. -/
theorem IsFilterMatch.ofNodes_tooLarge {number : Node Rule} (h : IsFilterMatch text root)
    (hFirst : firstTooLarge [root] = some number) :
    Filter.ofNodes text [root] = .error (.ofPiece (.numberOutOfRange number.text) text
      number.start.offset number.stop.offset) := by
  obtain ⟨disjunction, hFind, hBuilds⟩ := h.exists_disjunction
  rw [Builds, hFirst] at hBuilds
  simp only [Filter.ofNodes, List.head?_cons, Option.map_some, Option.getD_some, hFind, hBuilds,
    TreeFault.atNode]

/-- Where no number is too large the match builds a regular filter. -/
theorem IsFilterMatch.exists_ofNodes (h : IsFilterMatch text root)
    (hNone : firstTooLarge [root] = none) :
    ∃ filter, Filter.ofNodes text [root] = .ok filter ∧ filter.IsRegular := by
  obtain ⟨disjunction, hFind, hBuilds⟩ := h.exists_disjunction
  rw [Builds, hNone] at hBuilds
  obtain ⟨filter, hOk, hRegular⟩ := hBuilds
  refine ⟨filter, ?_, hRegular⟩
  simp only [Filter.ofNodes, List.head?_cons, Option.map_some, Option.getD_some, hFind, hOk]

/-- The grammar either has a match for a text or says what it expected. -/
theorem exists_isFilterMatch_or_error (text : List Char) :
    (∃ root, IsFilterMatch text root ∧ filterGrammar.parse .filter text = .ok [root]) ∨
      (∀ root, ¬IsFilterMatch text root) ∧
        ∃ expected, filterGrammar.parse .filter text = .error expected := by
  cases h : filterGrammar.parse .filter text with
  | error expected =>
    refine .inr ⟨fun root hRoot => ?_, expected, rfl⟩
    obtain ⟨stop, hMatches⟩ := hRoot
    exact not_matches_of_parse filterGrammar_ranked h [root] stop hMatches
  | ok nodes =>
    obtain ⟨stop, hMatches⟩ := exists_matches_of_parse filterGrammar_ranked h
    obtain ⟨parts, -, hNodes⟩ := hMatches.of_rule
    obtain rfl : nodes = [.node .filter (.ofText text) stop parts] := hNodes
    exact .inl ⟨_, ⟨stop, hMatches⟩, rfl⟩

/-- The parser finds the match of a filter. -/
theorem IsFilterMatch.parse_eq (h : IsFilterMatch text root) :
    filterGrammar.parse .filter text = .ok [root] := by
  rcases exists_isFilterMatch_or_error text with ⟨other, hOther, hParse⟩ | ⟨hNone, -⟩
  · rw [hParse, h.unique hOther]
  · exact absurd h (hNone root)

/-- A piece that stands in a text has an error. -/
theorem SyntaxError.ofPiece?_append (fault : SyntaxFault) (before piece after : List Char) :
    ofPiece? fault (before ++ piece ++ after) (byteLength before) (byteLength (before ++ piece)) =
      some (ofPiece fault (before ++ piece ++ after) (byteLength before)
        (byteLength (before ++ piece))) := by
  have hStart : isBoundary (byteLength before) (before ++ piece ++ after) = true := by
    rw [List.append_assoc]
    exact isBoundary_byteLength before (piece ++ after)
  have hStop := isBoundary_byteLength (before ++ piece) after
  have hLe : byteLength before ≤ byteLength (before ++ piece) := by
    rw [byteLength_append]
    exact Nat.le_add_right _ _
  exact if_pos ⟨hLe, hStart, hStop⟩

namespace Filter

variable {source : String}

/-- A parenthesis too many is a piece of the text, so the error points at it and is not the one of
a text with nothing to read. -/
theorem parse_of_not_isWithinLimit (h : ¬Nesting.IsWithinLimit source.toList) :
    ∃ before after, Nesting.IsFirstExcess source.toList before after ∧
      parse source = .error (.ofPiece (.nestedTooDeeply Nesting.limit) source.toList
        (byteLength before) (byteLength before + 1)) := by
  cases hFirst : Nesting.firstExcess source.toList with
  | none => exact absurd (Nesting.firstExcess_eq_none.1 hFirst) h
  | some offset =>
    obtain ⟨before, after, hExcess, rfl⟩ := Nesting.exists_isFirstExcess hFirst
    refine ⟨before, after, hExcess, ?_⟩
    have hPiece := SyntaxError.ofPiece?_append (.nestedTooDeeply Nesting.limit) before ['('] after
    have hStop : byteLength (before ++ ['(']) = byteLength before + 1 := byteLength_append ..
    have hText : before ++ ['('] ++ after = source.toList := by rw [hExcess.text_eq]; simp
    rw [hStop, hText] at hPiece
    simp only [parse, hFirst, hPiece]

/-- Within the limit the grammar decides. -/
theorem parse_of_match {root : Node Rule} (h : Nesting.IsWithinLimit source.toList)
    (hRoot : IsFilterMatch source.toList root) :
    parse source = ofNodes source.toList [root] := by
  simp only [parse, Nesting.firstExcess_eq_none.2 h, hRoot.parse_eq]

/-- Within the limit a text without a match has the error of the grammar. -/
theorem parse_of_no_match (h : Nesting.IsWithinLimit source.toList)
    (hNone : ∀ root, ¬IsFilterMatch source.toList root) :
    ∃ expected, filterGrammar.parse .filter source.toList = .error expected ∧
      parse source = .error (.ofExpected source.toList expected) := by
  rcases exists_isFilterMatch_or_error source.toList with ⟨root, hRoot, -⟩ | ⟨-, expected, hParse⟩
  · exact absurd hRoot (hNone root)
  · refine ⟨expected, hParse, ?_⟩
    simp only [parse, Nesting.firstExcess_eq_none.2 h, hParse]

/-- Where numbers are too large the first one of them is at fault. -/
theorem parse_of_tooLarge {root : Node Rule} (h : Nesting.IsWithinLimit source.toList)
    (hRoot : IsFilterMatch source.toList root) (hNumber : ∃ number, IsTooLargeIn root number) :
    ∃ number, IsFirstTooLarge root number ∧
      parse source = .error (.ofPiece (.numberOutOfRange number.text) source.toList
        number.start.offset number.stop.offset) := by
  rw [parse_of_match h hRoot]
  cases hFirst : firstTooLarge [root] with
  | none => exact absurd hNumber (firstTooLarge_eq_none.1 hFirst)
  | some number => exact ⟨number, hRoot.isFirstTooLarge hFirst, hRoot.ofNodes_tooLarge hFirst⟩

/-- A text spells a filter if the grammar accepts it and no number is too large. -/
theorem exists_parse {root : Node Rule} (h : Nesting.IsWithinLimit source.toList)
    (hRoot : IsFilterMatch source.toList root) (hNone : ¬∃ number, IsTooLargeIn root number) :
    ∃ filter, parse source = .ok filter ∧ filter.IsRegular := by
  rw [parse_of_match h hRoot]
  exact hRoot.exists_ofNodes (firstTooLarge_eq_none.2 hNone)

/-- A text spells a regular filter or has a fault of one of three kinds. -/
theorem parse_cases (source : String) :
    (∃ filter, parse source = .ok filter ∧ filter.IsRegular) ∨
      ∃ error, parse source = .error error ∧
        (error.fault = .nestedTooDeeply Nesting.limit ∨
          (∃ expected found, error.fault = .unexpected expected found) ∨
          ∃ lexeme, error.fault = .numberOutOfRange lexeme) := by
  by_cases h : Nesting.IsWithinLimit source.toList
  · rcases exists_isFilterMatch_or_error source.toList with ⟨root, hRoot, -⟩ | ⟨hNone, -⟩
    · by_cases hNumber : ∃ number, IsTooLargeIn root number
      · obtain ⟨number, -, hParse⟩ := parse_of_tooLarge h hRoot hNumber
        exact .inr ⟨_, hParse, .inr (.inr ⟨_, rfl⟩)⟩
      · exact .inl (exists_parse h hRoot hNumber)
    · obtain ⟨expected, -, hParse⟩ := parse_of_no_match h hNone
      exact .inr ⟨_, hParse, .inr (.inl ⟨_, _, rfl⟩)⟩
  · obtain ⟨before, after, -, hParse⟩ := parse_of_not_isWithinLimit h
    exact .inr ⟨_, hParse, .inl rfl⟩

/-- A text that spells a filter is within the limit. -/
theorem isWithinLimit_of_parse {filter : Filter} (h : parse source = .ok filter) :
    Nesting.IsWithinLimit source.toList := by
  refine Classical.byContradiction fun hNot => ?_
  obtain ⟨_, _, -, hParse⟩ := parse_of_not_isWithinLimit hNot
  rw [hParse] at h
  cases h

/-- A text that spells a filter is one by the grammar. -/
theorem exists_isFilterMatch_of_parse {filter : Filter} (h : parse source = .ok filter) :
    ∃ root, IsFilterMatch source.toList root ∧ ofNodes source.toList [root] = .ok filter := by
  have hWithin := isWithinLimit_of_parse h
  rcases exists_isFilterMatch_or_error source.toList with ⟨root, hRoot, -⟩ | ⟨hNone, -⟩
  · rw [parse_of_match hWithin hRoot] at h
    exact ⟨root, hRoot, h⟩
  · obtain ⟨_, -, hParse⟩ := parse_of_no_match hWithin hNone
    rw [hParse] at h
    cases h

/-- What a text that spells a filter comes to: the match of a disjunction that builds the filter,
with gaps around it. -/
theorem exists_disjunction_of_parse {filter : Filter} (h : parse source = .ok filter) :
    Nesting.IsWithinLimit source.toList ∧ ∃ start stop parts, start.StandsIn source.toList ∧
      start.rest = Mode.initial.behindGap isGap source.toList ∧
      filterGrammar.Matches source.toList.length (.once (.rule .disjunction)) .initial start
        [.node .disjunction start stop parts] stop ∧
      Mode.initial.behindGap isGap stop.rest = [] ∧
      chainOf .or (.node .disjunction start stop parts) none parts = .ok filter := by
  obtain ⟨root, hRoot, hFilter⟩ := exists_isFilterMatch_of_parse h
  obtain ⟨start, stop, parts, _, _, hStands, hStart, hDisjunction, hStop, -, hParts⟩ :=
    hRoot.exists_parts
  refine ⟨isWithinLimit_of_parse h, start, stop, parts, hStands, hStart, hDisjunction, hStop, ?_⟩
  rwa [ofNodes_eq_ok hParts rfl, ofNode] at hFilter

/-- What a text spells can be computed. -/
theorem parse_of_toOption {filter : Filter} (h : (parse source).toOption = some filter) :
    parse source = .ok filter := by
  cases hParse : parse source with
  | error =>
    rw [hParse] at h
    cases h
  | ok read =>
    rw [hParse] at h
    cases h
    rfl

/-- What a text spells can be computed up to spans. -/
theorem exists_parse_of_eraseSpans {source : String} {filter : Filter}
    (h : (parse source).toOption.map eraseSpans = some filter) :
    ∃ read, parse source = .ok read ∧ read.eraseSpans = filter := by
  cases hParse : parse source with
  | error =>
    rw [hParse] at h
    cases h
  | ok read =>
    rw [hParse] at h
    exact ⟨read, rfl, Option.some.inj h⟩

/-- A text that spells a filter spells a regular one. -/
theorem isRegular_of_parse {filter : Filter} (h : parse source = .ok filter) :
    filter.IsRegular := by
  rcases parse_cases source with ⟨other, hParse, hRegular⟩ | ⟨error, hParse, -⟩
  · rw [hParse] at h
    cases h
    exact hRegular
  · rw [hParse] at h
    cases h

end Filter

end RowFilter
