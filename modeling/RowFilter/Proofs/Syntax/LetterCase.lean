import RowFilter.Proofs.Grammar.Order
import RowFilter.Proofs.Grammar.Replacement
import RowFilter.Proofs.Syntax.Layout

/-! The case of letters. The grammar does not tell a small letter from its
capital letter, so a text is read alike in any case. Where only letters of
keywords change their case, all names and values stay the same, since their
matches share no character with a keyword. -/

namespace RowFilter

open Grammar Text

/-- The rules of keywords and of phrases. -/
def Rule.isKeyword (rule : Rule) : Bool :=
  rule ∈ [.keywordAnd, .keywordOr, .keywordNot, .keywordIn, .keywordNotIn, .isNull, .isNotNull]

/-- Whether a keyword among some matches, or within them, covers an offset. -/
def IsInKeyword (nodes : List (Node Rule)) (offset : Nat) : Prop :=
  ∃ node ∈ Node.preorderAll nodes, node.rule.isKeyword = true ∧
    node.start.offset ≤ offset ∧ offset < node.stop.offset

instance (nodes : List (Node Rule)) (offset : Nat) : Decidable (IsInKeyword nodes offset) :=
  inferInstanceAs (Decidable (∃ node ∈ Node.preorderAll nodes, node.rule.isKeyword = true ∧
    node.start.offset ≤ offset ∧ offset < node.stop.offset))

/-- Two texts, from an offset on, that differ in the case of letters at some offsets only. -/
inductive Recased (isChangeable : Nat → Prop) : Nat → List Char → List Char → Prop where
  | nil (offset : Nat) : Recased isChangeable offset [] []
  | same {offset : Nat} (c : Char) {text other : List Char}
      (h : Recased isChangeable (offset + c.utf8Size) text other) :
      Recased isChangeable offset (c :: text) (c :: other)
  | letter {offset : Nat} {c d : Char} {text other : List Char} (hOffset : isChangeable offset)
      (hLetter : c.toLower = d.toLower)
      (h : Recased isChangeable (offset + c.utf8Size) text other) :
      Recased isChangeable offset (c :: text) (d :: other)

namespace Recased

variable {isChangeable : Nat → Prop} {offset : Nat} {text other rest behind : List Char}

/-- Texts that differ in case are the same in small letters. -/
theorem map_toLower (h : Recased isChangeable offset text other) :
    text.map Char.toLower = other.map Char.toLower := by
  induction h with
  | nil => rfl
  | same c _ ih => rw [List.map_cons, List.map_cons, ih]
  | letter _ hLetter _ ih => rw [List.map_cons, List.map_cons, hLetter, ih]

/-- The characters at other offsets are the same. -/
theorem eq_of_unchangeable (h : Recased isChangeable offset text other)
    (hNone : ∀ i, offset ≤ i → i < offset + byteLength text → ¬isChangeable i) : text = other := by
  induction h with
  | nil => rfl
  | @same offset c text other _ ih =>
    rw [byteLength_cons] at hNone
    rw [ih fun i hStart hStop => hNone i (by omega) (by omega)]
  | @letter offset c d text other hOffset =>
    have hPos := c.utf8Size_pos
    rw [byteLength_cons] at hNone
    exact absurd hOffset (hNone offset (Nat.le_refl _) (by omega))

theorem of_append (h : Recased isChangeable offset (text ++ rest) (other ++ behind))
    (hLength : text.length = other.length) :
    Recased isChangeable offset text other ∧
      Recased isChangeable (offset + byteLength text) rest behind := by
  induction text generalizing offset other with
  | nil =>
    obtain rfl := List.length_eq_zero_iff.1 hLength.symm
    exact ⟨.nil offset, h⟩
  | cons c text ih =>
    cases other with
    | nil => cases hLength
    | cons d other =>
      have hOthers : text.length = other.length := Nat.succ.inj hLength
      cases h with
      | same _ h =>
        obtain ⟨hText, hRest⟩ := ih h hOthers
        rw [byteLength_cons, ← Nat.add_assoc]
        exact ⟨.same c hText, hRest⟩
      | letter hOffset hLetter h =>
        obtain ⟨hText, hRest⟩ := ih h hOthers
        rw [byteLength_cons, ← Nat.add_assoc]
        exact ⟨.letter hOffset hLetter hText, hRest⟩

end Recased

section Nesting

open Nesting

/-- Whether the quote around a place is no letter. -/
private def HasMark : Quoting → Prop
  | .outside => True
  | .inside quote | .escaped quote => quote.isAlpha = false

private theorem hasMark_step {quoting : Quoting} (h : HasMark quoting) (c : Char) :
    HasMark (quoting.step c) := by
  cases quoting with
  | outside =>
    rw [Quoting.step]
    split
    · next hQuote =>
      simp only [Bool.or_eq_true, decide_eq_true_eq] at hQuote
      rcases hQuote with rfl | rfl <;> rfl
    · trivial
  | inside quote =>
    rw [Quoting.step]
    split
    · exact h
    · split
      · trivial
      · exact h
  | escaped quote => exact h

private theorem quoting_step_toLower {quoting : Quoting} (h : HasMark quoting) (c : Char) :
    quoting.step c.toLower = quoting.step c := by
  cases quoting with
  | outside =>
    simp (disch := decide) only [Quoting.step, toLower_eq_iff]
    split
    · next hQuote =>
      simp only [Bool.or_eq_true, decide_eq_true_eq] at hQuote
      rcases hQuote with rfl | rfl <;> rfl
    · rfl
  | inside quote =>
    have hQuote : quote.isAlpha = false := h
    simp (disch := decide) only [Quoting.step, toLower_eq_iff hQuote, toLower_eq_iff]
  | escaped quote => rfl

private theorem deepestFrom_map_toLower {place : Place} (h : HasMark place.1) (text : List Char) :
    deepestFrom place (text.map Char.toLower) = deepestFrom place text := by
  induction text generalizing place with
  | nil => rfl
  | cons c text ih =>
    have hStep : place.step c.toLower = place.step c := by
      rw [Place.step, Place.step, quoting_step_toLower h]
      simp (disch := decide) only [depthAfter, toLower_eq_iff]
    rw [List.map_cons, deepestFrom, deepestFrom, hStep]
    exact congrArg _ (ih (hasMark_step h c))

end Nesting

section Pieces

variable {isChangeable : Nat → Prop} {keeps : Rule → Bool}

private theorem length_textOf {pieces others : List (Piece Rule)}
    (h : Piece.replaceAll Char.toLower pieces = Piece.replaceAll Char.toLower others) :
    (Piece.textOf pieces).length = (Piece.textOf others).length := by
  have hText := congrArg (fun pieces => (Piece.textOf pieces).length) h
  simpa [Piece.textOf_replaceAll] using hText

private theorem allAlike_of_recased {pieces others : List (Piece Rule)} {start other : Cursor}
    {rest behind : List Char} (hStart : start.rest = Piece.textOf pieces ++ rest)
    (hOther : other.rest = Piece.textOf others ++ behind)
    (hShape : Piece.replaceAll Char.toLower pieces = Piece.replaceAll Char.toLower others)
    (hRecased : Recased isChangeable start.offset (Piece.textOf pieces) (Piece.textOf others))
    (hKept : ∀ node ∈ Node.preorderAll (Piece.locateAll start pieces), keeps node.rule = true →
      ∀ i, node.start.offset ≤ i → i < node.stop.offset → ¬isChangeable i) :
    Node.AllAlike keeps (Piece.locateAll start pieces) (Piece.locateAll other others) := by
  -- The induction is on the pieces and on those of each match among them.
  match pieces, others with
  | [], [] => exact trivial
  | [], _ :: _ | _ :: _, [] => cases hShape
  | .char _ :: _, .shown _ _ :: _ | .shown _ _ :: _, .char _ :: _ => cases (List.cons.inj hShape).1
  | .char c :: pieces, .char d :: others =>
    obtain ⟨-, hRestShape⟩ := List.cons.inj hShape
    have hSplit : Recased isChangeable start.offset ([c] ++ Piece.textOf pieces)
        ([d] ++ Piece.textOf others) := hRecased
    have hRest := (hSplit.of_append rfl).2
    rw [← Cursor.offset_past] at hRest
    have hStartRest : (start.past [c]).rest = Piece.textOf pieces ++ rest := Cursor.rest_past hStart
    have hOtherRest : (other.past [d]).rest = Piece.textOf others ++ behind :=
      Cursor.rest_past hOther
    have hAlike := allAlike_of_recased hStartRest hOtherRest hRestShape hRest hKept
    exact hAlike
  | .shown rule parts :: pieces, .shown otherRule otherParts :: others =>
    obtain ⟨hShown, hRestShape⟩ := List.cons.inj hShape
    obtain ⟨rfl, hParts⟩ := Piece.shown.inj hShown
    rw [Piece.textOf, Piece.textOf, Piece.text, Piece.text] at hRecased
    rw [Piece.textOf, Piece.text, List.append_assoc] at hStart hOther
    obtain ⟨hPartsRecased, hRest⟩ := hRecased.of_append (length_textOf hParts)
    rw [← Cursor.offset_past] at hRest
    rw [Piece.locateAll, Piece.locate, List.singleton_append, Node.preorderAll_cons,
      List.forall_mem_cons, List.forall_mem_append] at hKept
    obtain ⟨hNode, hKeptParts, hKeptRest⟩ := hKept
    refine ⟨⟨rfl, fun hKeeps => ?_, allAlike_of_recased hStart hOther hParts hPartsRecased hKeptParts⟩,
      allAlike_of_recased (Cursor.rest_past hStart) (Cursor.rest_past hOther) hRestShape hRest
        hKeptRest⟩
    rw [Cursor.textTo_past hStart, Cursor.textTo_past hOther]
    refine hPartsRecased.eq_of_unchangeable fun i hFirst hLast => hNode hKeeps i hFirst ?_
    change i < (start.past (Piece.textOf parts)).offset
    rwa [Cursor.offset_past]

end Pieces

section Grammar

private theorem ignores_word (word : String) : (Expr.word word : Expr Rule).Ignores Char.toLower := by
  intro a _ c
  rw [sameLetter, sameLetter, toLower_toLower]

private theorem ignores_literal {word : String} (h : word.toList.all (!·.isAlpha) = true) :
    (Expr.literal word : Expr Rule).Ignores Char.toLower := by
  intro a ha c
  have hLetter := List.all_eq_true.1 h a ha
  rw [Bool.not_eq_true'] at hLetter
  exact eq_toLower_iff hLetter c

private theorem isGap_toLower (c : Char) : isGap c.toLower = isGap c := by
  simp (disch := decide) only [isGap, toLower_eq_iff]

private theorem isDigit_toLower (c : Char) : c.toLower.isDigit = c.isDigit :=
  class_toLower (fun _ => isDigit_eq_false_of_isAlpha) c

private theorem ignores_escapedUntil {quote : Char} (h : quote.isAlpha = false) :
    (Rule.escapedUntil quote).Ignores Char.toLower := by
  refine ⟨⟨ignores_literal rfl, fun _ => rfl⟩, fun c => ?_⟩
  simp (disch := decide) only [ne_eq, toLower_eq_iff h, toLower_eq_iff]

private theorem ignores_toLower (rule : Rule) :
    (filterGrammar.body rule).Ignores Char.toLower := by
  change rule.body.Ignores Char.toLower
  cases rule with
  | whitespace | gap => exact isGap_toLower
  | nameChar => exact isNameChar_toLower
  | digits => exact ⟨isDigit_toLower, isDigit_toLower⟩
  | doubleQuoted | singleQuoted => exact ignores_escapedUntil rfl
  | _ =>
    simp only [Rule.body, Rule.sequence, Rule.firstOf, Rule.wholeWord, Expr.many1, Expr.Ignores]
      <;> and_intros <;> first | exact True.intro | exact ignores_word _ | exact ignores_literal rfl

private theorem not_isInKeyword {length : Nat} {task : Grammar.Task Rule} {mode : Mode}
    {start stop : Cursor} {nodes : List (Node Rule)} {node : Node Rule} {offset : Nat}
    (h : filterGrammar.Matches length task mode start nodes stop)
    (hNode : node ∈ Node.preorderAll nodes) (hRule : node.rule.isSpelled = true)
    (hStart : node.start.offset ≤ offset) (hStop : offset < node.stop.offset) :
    ¬IsInKeyword nodes offset := by
  -- Of two matches without parts one ends before the other one begins.
  rintro ⟨keyword, hKeyword, hKeywordRule, hKeywordStart, hKeywordStop⟩
  have hAtomic : ∀ rule : Rule, rule.isSpelled = true ∨ rule.isKeyword = true →
      filterGrammar.kind rule = .atomic := by
    intro rule
    cases rule <;> decide
  have hOther : node ≠ keyword := by
    rintro rfl
    revert hRule hKeywordRule
    cases node.rule <;> decide
  have hNodeParts := h.parts_eq_nil hNode (hAtomic _ (.inl hRule))
  have hKeywordParts := h.parts_eq_nil hKeyword (hAtomic _ (.inr hKeywordRule))
  have hApart : node.Precedes keyword ∨ keyword.Precedes node := by
    obtain ⟨i, hi, rfl⟩ := List.getElem_of_mem hNode
    obtain ⟨j, hj, rfl⟩ := List.getElem_of_mem hKeyword
    have hOrder := List.pairwise_iff_getElem.1 h.pairwise_preorderAll
    rcases Nat.lt_trichotomy i j with hLess | rfl | hLess
    · exact .inl (hOrder i j hi hj hLess)
    · exact absurd rfl hOther
    · exact .inr (hOrder j i hj hi hLess)
  rcases hApart with (hParts | hBefore) | (hParts | hBefore)
  · exact hParts hNodeParts
  · omega
  · exact hParts hKeywordParts
  · omega

end Grammar

section Filters

variable {text other : List Char} {root : Node Rule}

private theorem IsFilterMatch.exists_of_recased (hRoot : IsFilterMatch text root)
    (h : Recased (IsInKeyword [root]) 0 text other) :
    ∃ otherRoot, IsFilterMatch other otherRoot ∧ Node.Alike Rule.isSpelled root otherRoot := by
  obtain ⟨stop, hMatches⟩ := hRoot
  have hKept := fun node hNode hKeeps i hStart hStop =>
    @not_isInKeyword _ _ _ _ _ _ node i hMatches hNode hKeeps hStart hStop
  obtain ⟨pieces, hReads, hNodes, -⟩ := hMatches
  obtain ⟨outcome, hOther, -⟩ := exists_reads_read filterGrammar_ranked .filter other
  have hLower := hReads.replace isGap_toLower ignores_toLower trivial
  have hOtherLower := hOther.replace isGap_toLower ignores_toLower trivial
  have hLength : other.length = text.length := by
    simpa using (congrArg List.length h.map_toLower).symm
  rw [← h.map_toLower, hLength] at hOtherLower
  obtain _ | ⟨others, rest⟩ := outcome
  · cases hLower.unique hOtherLower
  obtain ⟨hShape, -⟩ := Prod.mk.inj (Option.some.inj (hLower.unique hOtherLower))
  have hStart : (Cursor.ofText text).rest = Piece.textOf pieces ++ stop.rest := hReads.text_eq
  have hOtherStart : (Cursor.ofText other).rest = Piece.textOf others ++ rest := hOther.text_eq
  have hRecased : Recased (IsInKeyword [root]) 0 (Piece.textOf pieces) (Piece.textOf others) := by
    change text = _ at hStart
    change other = _ at hOtherStart
    rw [hStart, hOtherStart] at h
    exact (h.of_append (length_textOf hShape)).1
  have hAlike : Node.AllAlike Rule.isSpelled (Piece.locateAll (.ofText text) pieces)
      (Piece.locateAll (.ofText other) others) :=
    allAlike_of_recased hStart hOtherStart hShape hRecased (by rwa [← hNodes])
  rw [← hNodes] at hAlike
  obtain ⟨otherRoot, hOtherNodes, hAlike⟩ := hAlike.exists_singleton
  refine ⟨otherRoot, ⟨(Cursor.ofText other).past (Piece.textOf others), others, ?_,
    hOtherNodes.symm, rfl⟩, hAlike⟩
  rwa [Cursor.rest_past hOtherStart]

/-- A text that spells a filter spells it in each case of the letters of its keywords. -/
theorem Filter.exists_parse_of_recased {source text : String} {filter : Filter}
    (hRoot : IsFilterMatch source.toList root)
    (hFilter : ofNodes source.toList [root] = .ok filter)
    (hWithin : Nesting.IsWithinLimit source.toList)
    (h : Recased (IsInKeyword [root]) 0 source.toList text.toList) :
    ∃ read, parse text = .ok read ∧ read.eraseSpans = filter.eraseSpans := by
  obtain ⟨otherRoot, hOther, hAlike⟩ := hRoot.exists_of_recased h
  have hDeepest := @deepestFrom_map_toLower (.outside, 0) trivial
  refine parse_of_alike hRoot hFilter hOther hAlike ?_
  rwa [Nesting.isWithinLimit_iff, ← hDeepest, ← h.map_toLower, hDeepest,
    ← Nesting.isWithinLimit_iff]

/-- Neither the gaps around and between the tokens of a text matter to what it spells, nor the case
of the letters of its keywords. -/
theorem Filter.parse_layout_and_case (source : String) :
    (∀ other : String, Respaced (source.toList.dropWhile isGap) (other.toList.dropWhile isGap) →
      (parse source).toOption.map eraseSpans = (parse other).toOption.map eraseSpans) ∧
    ∀ filter, parse source = .ok filter →
      ∃ nodes, filterGrammar.parse .filter source.toList = .ok nodes ∧
        ∀ other : String, Recased (IsInKeyword nodes) 0 source.toList other.toList →
          ∃ read, parse other = .ok read ∧ read.eraseSpans = filter.eraseSpans := by
  refine ⟨fun other => parse_respaced, fun filter hParse => ?_⟩
  obtain ⟨root, hRoot, hFilter⟩ := exists_isFilterMatch_of_parse hParse
  refine ⟨[root], hRoot.parse_eq, fun other => ?_⟩
  exact exists_parse_of_recased hRoot hFilter (isWithinLimit_of_parse hParse)

/-- Gaps and the case of a keyword do not change the filter. -/
theorem Filter.parse_spread_and_capitalised :
    (parse "a = 'x  y' ").toOption.map eraseSpans =
      (parse "\n a\t=\r\n'x  y'").toOption.map eraseSpans ∧
    ∃ filter, parse "a IS NULL" = .ok filter ∧
      ∃ read, parse "a Is nULL" = .ok read ∧ read.eraseSpans = filter.eraseSpans := by
  constructor
  · have hQuoted : IsQuotable Quote.single.char "x  y".toList := by
      change IsQuotable _ ['x', ' ', ' ', 'y']
      exact .plain (by decide) (by decide) (.plain (by decide) (by decide)
        (.plain (by decide) (by decide) (.plain (by decide) (by decide) .nil)))
    have hEnd : Respaced [' '] [] := .ends (List.all_eq_true.1 rfl) nofun
    have hValue : Respaced ([' '] ++ _) (['\r', '\n'] ++ _) :=
      .gap (List.all_eq_true.1 rfl) (List.all_eq_true.1 rfl) nofun nofun (.quoted hQuoted hEnd)
    have hSymbol : Respaced ([' '] ++ (['='] ++ _)) (['\t'] ++ (['='] ++ _)) :=
      .gap (List.all_eq_true.1 rfl) (List.all_eq_true.1 rfl) nofun nofun
        (.append (List.all_eq_true.1 rfl) hValue)
    have hName : Respaced (['a'] ++ _) (['a'] ++ _) :=
      .append (List.all_eq_true.1 rfl) hSymbol
    exact (parse_layout_and_case _).1 _ hName
  · have hSome : (parse "a IS NULL").toOption.isSome = true := by decide +kernel
    obtain ⟨filter, hParse⟩ : ∃ filter, parse "a IS NULL" = .ok filter := by
      cases h : parse "a IS NULL" with
      | ok filter => exact ⟨filter, rfl⟩
      | error => rw [h] at hSome; cases hSome
    obtain ⟨nodes, hNodes, hCase⟩ := (parse_layout_and_case _).2 filter hParse
    have hKeyword : (filterGrammar.parse .filter "a IS NULL".toList).toOption.all
        (fun nodes => IsInKeyword nodes 3 ∧ IsInKeyword nodes 5) = true := by decide +kernel
    rw [hNodes] at hKeyword
    obtain ⟨hSecond, hFourth⟩ := of_decide_eq_true hKeyword
    refine ⟨filter, hParse, hCase _ ?_⟩
    exact .same 'a' (.same ' ' (.same 'I' (.letter hSecond rfl (.same ' '
      (.letter hFourth rfl (.same 'U' (.same 'L' (.same 'L' (.nil _)))))))))

end Filters

end RowFilter
