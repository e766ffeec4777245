import RowFilter.Proofs.Grammar.Composed
import RowFilter.Proofs.Grammar.Order
import RowFilter.Proofs.Syntax.Balance

/-! The scan for nested parentheses and the grammar agree. They know nothing
of each other, but a quoted text ends for both at the same place, and in a
text that is a filter the scan finds the first parenthesis that stands too
deep among the matches. -/

namespace RowFilter

open Grammar Text

namespace Nesting

section Quotes

variable {before taken text body : List Char} {quote : Char} {depth : Nat}

/-- A text with a quote at its beginning at whose end the scan leaves the quote, given what
stands before it. -/
structure LeavesQuote (before taken : List Char) : Prop where
  ne_nil : taken ≠ []
  outside : (scan (before ++ taken)).1 = .outside
  eq_of_outside : ∀ shorter, shorter <+: taken → shorter ≠ [] →
    (scan (before ++ shorter)).1 = .outside → shorter = taken

/-- A scan of more text goes on where the first scan ends. -/
theorem scan_append (before text : List Char) :
    scan (before ++ text) = scanFrom (scan before) text :=
  List.foldl_append

private theorem ne_outside_of_isPrefix (h : IsQuotable quote body) (hPrefix : text <+: body) :
    (scanFrom (.inside quote, depth) text).1 ≠ .outside := by
  induction h generalizing text with
  | nil =>
    rw [List.prefix_nil.1 hPrefix]
    exact nofun
  | escaped c _ ih =>
    rcases List.prefix_cons_iff.1 hPrefix with rfl | ⟨escaped, rfl, hEscaped⟩
    · exact nofun
    rcases List.prefix_cons_iff.1 hEscaped with rfl | ⟨others, rfl, hOthers⟩
    · exact nofun
    change (scanFrom (.inside quote, depth) others).1 ≠ .outside
    exact ih hOthers
  | @plain c _ hQuote hBackslash _ ih =>
    rcases List.prefix_cons_iff.1 hPrefix with rfl | ⟨others, rfl, hOthers⟩
    · exact nofun
    have hStep : Place.step (.inside quote, depth) c = (.inside quote, depth) := by
      simp [Place.step, Quoting.step, depthAfter, hQuote, hBackslash]
    rw [scanFrom_cons, hStep]
    exact ih hOthers

private theorem exists_isQuotable_of_leaves (hBackslash : quote ≠ '\\')
    (hOutside : (scanFrom (.inside quote, depth) text).1 = .outside)
    (hFirst : ∀ shorter, shorter <+: text →
      (scanFrom (.inside quote, depth) shorter).1 = .outside → shorter = text) :
    ∃ body, IsQuotable quote body ∧ text = body ++ [quote] := by
  -- The induction is on the length: a backslash takes two characters.
  induction hLength : text.length using Nat.strongRecOn generalizing text with
  | _ n ih =>
    subst hLength
    cases text with
    | nil => cases hOutside
    | cons c text =>
      by_cases hQuote : c = quote
      · subst hQuote
        have hShorter := hFirst [c] (List.cons_prefix_cons.2 ⟨rfl, List.nil_prefix⟩)
          (by simp [scanFrom, Place.step, Quoting.step, hBackslash])
        exact ⟨[], .nil, hShorter.symm⟩
      by_cases hEscape : c = '\\'
      · subst hEscape
        cases text with
        | nil => cases hOutside
        | cons d text =>
          have hOthers : ∀ shorter, shorter <+: text →
              (scanFrom (.inside quote, depth) shorter).1 = .outside → shorter = text := by
            intro shorter hPrefix hLeft
            have hShorter := hFirst ('\\' :: d :: shorter)
              (List.cons_prefix_cons.2 ⟨rfl, List.cons_prefix_cons.2 ⟨rfl, hPrefix⟩⟩) hLeft
            simpa using hShorter
          have hRest : (scanFrom (.inside quote, depth) text).1 = .outside := hOutside
          obtain ⟨body, hBody, rfl⟩ :=
            ih text.length (by simp only [List.length_cons]; omega) hRest hOthers rfl
          exact ⟨'\\' :: d :: body, .escaped d hBody, rfl⟩
      · have hStep : Place.step (.inside quote, depth) c = (.inside quote, depth) := by
          simp [Place.step, Quoting.step, depthAfter, hQuote, hEscape]
        rw [scanFrom_cons, hStep] at hOutside
        have hOthers : ∀ shorter, shorter <+: text →
            (scanFrom (.inside quote, depth) shorter).1 = .outside → shorter = text := by
          intro shorter hPrefix hLeft
          have hShorter := hFirst (c :: shorter) (List.cons_prefix_cons.2 ⟨rfl, hPrefix⟩)
            (by rwa [scanFrom_cons, hStep])
          simpa using hShorter
        obtain ⟨body, hBody, rfl⟩ := ih text.length (Nat.lt_succ_self _) hOutside hOthers rfl
        exact ⟨c :: body, .plain hQuote hEscape hBody, rfl⟩

/-- The scan leaves a quote at the end of a quoted text. -/
theorem leavesQuote_iff {quote : Quote} (hBefore : (scan before).1 = .outside)
    (hTaken : taken.head? = some quote.char) :
    LeavesQuote before taken ↔
      ∃ body, IsQuotable quote.char body ∧ taken = quote.char :: (body ++ [quote.char]) := by
  obtain ⟨text, rfl⟩ : ∃ text, taken = quote.char :: text := by
    cases taken with
    | nil => cases hTaken
    | cons c text =>
      obtain rfl := Option.some.inj hTaken
      exact ⟨text, rfl⟩
  have hPlace : scan before = (.outside, (scan before).2) := Prod.ext hBefore rfl
  have hScan (text : List Char) : scan (before ++ quote.char :: text) =
      scanFrom (.inside quote.char, (scan before).2) text := by
    rw [scan_append, scanFrom_cons, hPlace]
    cases quote <;> rfl
  constructor
  · rintro ⟨-, hOutside, hFirst⟩
    rw [hScan] at hOutside
    have hOthers : ∀ shorter, shorter <+: text →
        (scanFrom (.inside quote.char, (scan before).2) shorter).1 = .outside → shorter = text := by
      intro shorter hPrefix hLeft
      have hShorter := hFirst (quote.char :: shorter) (List.cons_prefix_cons.2 ⟨rfl, hPrefix⟩)
        (List.cons_ne_nil _ _) (by rwa [hScan])
      simpa using hShorter
    obtain ⟨body, hBody, rfl⟩ :=
      exists_isQuotable_of_leaves quote.char_ne_backslash hOutside hOthers
    exact ⟨body, hBody, rfl⟩
  · rintro ⟨body, hBody, hText⟩
    obtain rfl := (List.cons.inj hText).2
    refine ⟨List.cons_ne_nil _ _, ?_, fun shorter hPrefix hNonempty hLeft => ?_⟩
    · rw [scan_append, hPlace, (nests_quoted hBody).scan_eq]
    · rcases List.prefix_cons_iff.1 hPrefix with rfl | ⟨others, rfl, hOthers⟩
      · exact absurd rfl hNonempty
      rw [hScan] at hLeft
      rcases List.prefix_concat_iff.1 hOthers with rfl | hInside
      · rfl
      · exact absurd hLeft (ne_outside_of_isPrefix hBody hInside)

end Quotes

section Parentheses

variable {depth : Nat} {nodes others : List (Node Rule)} {start stop : Cursor}

/-- The number of open parentheses behind the beginning of a match. -/
def openAfter (depth : Nat) (node : Node Rule) : Nat :=
  if node.rule = .leftParen then depth + 1
  else if node.rule = .rightParen then depth - 1
  else depth

/-- The first match with which more parentheses than the limit are open. -/
def firstOverfull (depth : Nat) : List (Node Rule) → Option (Node Rule)
  | [] => none
  | node :: nodes =>
    if limit < openAfter depth node then some node else firstOverfull (openAfter depth node) nodes

private theorem firstOverfull_append :
    firstOverfull depth (nodes ++ others) =
      (firstOverfull depth nodes).or (firstOverfull (nodes.foldl openAfter depth) others) := by
  induction nodes generalizing depth with
  | nil => rfl
  | cons node nodes ih =>
    rw [List.cons_append, firstOverfull, firstOverfull]
    split
    · rfl
    · exact ih

private theorem foldl_openAfter_le (hDepth : depth ≤ limit)
    (h : firstOverfull depth nodes = none) : nodes.foldl openAfter depth ≤ limit := by
  induction nodes generalizing depth with
  | nil => exact hDepth
  | cons node nodes ih =>
    rw [firstOverfull] at h
    split at h
    · cases h
    · next hWithin => exact ih (Nat.le_of_not_lt hWithin) h

private theorem firstOverfull_of_flat (hDepth : depth ≤ limit)
    (h : ∀ node ∈ nodes, node.rule ≠ .leftParen ∧ node.rule ≠ .rightParen) :
    firstOverfull depth nodes = none ∧ nodes.foldl openAfter depth = depth := by
  induction nodes with
  | nil => exact ⟨rfl, rfl⟩
  | cons node nodes ih =>
    rw [List.forall_mem_cons] at h
    have hNode : openAfter depth node = depth := by simp [openAfter, h.1]
    rw [firstOverfull, List.foldl_cons, hNode, if_neg (Nat.not_lt_of_le hDepth)]
    exact ih h.2

private theorem excessFrom_of_nests {taken : List Char} (h : Nests taken 0) (hDepth : depth ≤ limit)
    (offset : Nat) (rest : List Char) :
    excessFrom .outside depth offset (taken ++ rest) =
      excessFrom .outside depth (offset + byteLength taken) rest := by
  have hDeepest := h.deepest_eq depth
  have hWithin : deepestFrom (.outside, depth) taken ≤ limit := by omega
  have hPassed := excessFrom_append hWithin offset rest
  rwa [h.scan_eq] at hPassed

/-- The scan of the text between two cursors finds what the matches between them hold. -/
private def Tracks (start : Cursor) (nodes : List (Node Rule)) (stop : Cursor) : Prop :=
  ∀ depth ≤ limit, excessFrom .outside depth start.offset start.rest =
    match firstOverfull depth (Node.preorderAll nodes) with
    | some node => some node.start.offset
    | none =>
      excessFrom .outside ((Node.preorderAll nodes).foldl openAfter depth) stop.offset stop.rest

private theorem tracks_of_nests {taken : List Char} (hRest : start.rest = taken ++ stop.rest)
    (hStop : stop = start.past taken) (hTaken : Nests taken 0)
    (hNodes : ∀ node ∈ Node.preorderAll nodes, node.rule ≠ .leftParen ∧ node.rule ≠ .rightParen) :
    Tracks start nodes stop := by
  intro depth hDepth
  obtain ⟨hNone, hOpen⟩ := firstOverfull_of_flat hDepth hNodes
  have hOffset : stop.offset = start.offset + byteLength taken := by rw [hStop, Cursor.offset_past]
  simp only [hNone, hOpen]
  rw [hRest, excessFrom_of_nests hTaken hDepth, hOffset]

private theorem addsUp_tracks : AddsUp isGap Tracks where
  nil start := tracks_of_nests rfl rfl .nil nofun
  gap start := by
    refine tracks_of_nests ?_ (Mode.skip_eq .initial isGap start) (nests_gap .initial start.rest)
      nofun
    rw [Mode.rest_skip, Mode.gap_append_behindGap]
  append := by
    intro start middle stop nodes others hFirst hSecond depth hDepth
    rw [hFirst depth hDepth, Node.preorderAll_append, firstOverfull_append, List.foldl_append]
    cases hOverfull : firstOverfull depth (Node.preorderAll nodes) with
    | some node => rfl
    | none => exact hSecond _ (foldl_openAfter_le hDepth hOverfull)

private theorem Tracks.shown {rule : Rule} {parts : List (Node Rule)}
    (hRule : rule ≠ .leftParen ∧ rule ≠ .rightParen) (h : Tracks start parts stop) :
    Tracks start [.node rule start stop parts] stop := by
  intro depth hDepth
  have hNode : openAfter depth (.node rule start stop parts) = depth := by
    simp [openAfter, Node.rule, hRule]
  rw [h depth hDepth, Node.preorderAll_cons, Node.preorderAll_nil, List.append_nil, firstOverfull,
    List.foldl_cons, hNode, if_neg (Nat.not_lt_of_le hDepth)]

variable {length : Nat}

private theorem tracks_plain {rule : Rule} (hPlain : isPlainRule rule = true)
    (hKind : rule.kind = .atomic)
    (h : filterGrammar.Matches length (.once (.rule rule)) .initial start nodes stop) :
    Tracks start nodes stop := by
  obtain ⟨taken, hTakes, hRest, hStop, rfl⟩ := h.of_atomic hKind rfl
  refine .shown ?_ (tracks_of_nests hRest hStop (.of_plain (not_mem_marks hPlain hTakes)) nofun)
  constructor <;> rintro rfl <;> cases hKind

private theorem tracks_string
    (h : filterGrammar.Matches length (.once (.rule .string)) .initial start nodes stop) :
    Tracks start nodes stop := by
  obtain ⟨quote, body, hBody, hRest, hStop, rfl⟩ := exists_quoted_of_matches h
  refine tracks_of_nests (hRest.trans (by simp)) hStop (nests_quoted hBody) ?_
  cases quote <;> simp [quotedNode, Node.preorderAll_cons, Node.rule, Quote.bodyRule]

private theorem tracks_mark {rule : Rule} {word : String} (hBody : rule.body = .literal word)
    (hWord : word.toList.all (!marks.contains ·) = true)
    (hRule : rule ≠ .leftParen ∧ rule ≠ .rightParen)
    (h : filterGrammar.Matches length (.once (.rule rule)) .initial start nodes stop) :
    Tracks start nodes stop := by
  obtain ⟨hRest, hStop, rfl⟩ := h.of_literal_rule hBody
  have hNothing : Tracks start [] stop := tracks_of_nests hRest hStop (.of_word hWord) nofun
  split
  · exact .shown hRule hNothing
  · exact hNothing

private theorem tracks_paren {rule : Rule} {word : String} {c : Char}
    (hBody : rule.body = .literal word) (hKind : rule.kind = .normal) (hWord : word.toList = [c])
    (hStep : Quoting.outside.step c = .outside)
    (hNext : ∀ depth, depthAfter .outside depth c = openAfter depth (.node rule start stop []))
    (h : filterGrammar.Matches length (.once (.rule rule)) .initial start nodes stop) :
    Tracks start nodes stop := by
  obtain ⟨hRest, hStop, rfl⟩ := h.of_literal_rule hBody
  have hShows : filterGrammar.shows rule .initial = true := by
    simp [shows, filterGrammar, hKind, Mode.initial]
  rw [hWord] at hRest hStop
  intro depth _
  have hOffset : stop.offset = start.offset + c.utf8Size := by
    rw [hStop, Cursor.offset_past]
    simp
  rw [hRest, List.singleton_append, excessFrom, hStep, hNext, if_pos hShows, hOffset,
    Node.preorderAll_cons, Node.preorderAll_nil, List.nil_append, firstOverfull]
  split <;> rfl

/-- The rules that are read with gaps between their parts, and those that they are made of. -/
private def isStructural (rule : Rule) : Bool :=
  rule ∉ [.whitespace, .nameChar, .reserved, .sign, .digits, .exponent, .doubleQuoted,
    .singleQuoted, .gap]

private theorem keeps_tracks (rule : Rule) (h : isStructural rule = true) :
    Keeps filterGrammar length isStructural Tracks rule := by
  cases rule with
  | whitespace | nameChar | reserved | sign | digits | exponent | doubleQuoted | singleQuoted
  | gap => cases h
  | name | number | keywordAnd | keywordOr | keywordNot | keywordIn | keywordNotIn | isNull
  | isNotNull | comparisonSymbol => exact .leaf (tracks_plain rfl rfl)
  | string => exact .leaf tracks_string
  | comma | backtick => exact .leaf (tracks_mark rfl rfl (by simp))
  | leftParen => exact .leaf (tracks_paren rfl rfl rfl rfl fun _ => rfl)
  | rightParen => exact .leaf (tracks_paren rfl rfl rfl rfl fun _ => rfl)
  | endOfInput | filter | disjunction | conjunction | factor | group | negation | condition
  | comparison | nullCheck | inList | notInList | operand | literalList | literal | column =>
    exact .composed rfl rfl (.shown (by simp))

/-- In a text that is a filter the scan finds the first parenthesis with which more than the limit
are open among the matches. -/
theorem firstExcess_eq {text : List Char} {root : Node Rule} (h : IsFilterMatch text root) :
    firstExcess text = (firstOverfull 0 root.preorder).map (·.start.offset) := by
  obtain ⟨stop, hMatches⟩ := h
  have hStop : stop.rest = [] := by
    obtain ⟨_, hParts, -⟩ := hMatches.of_rule
    obtain ⟨_, _, _, -, hOthers, -⟩ := hParts.of_seq
    obtain ⟨_, _, _, -, hEnd, -⟩ := hOthers.of_seq
    obtain ⟨_, hEndParts, -⟩ := hEnd.of_rule
    have hLe := hEndParts.length_le
    rw [hEndParts.of_atEnd.2] at hLe
    exact List.eq_nil_of_length_eq_zero (Nat.le_zero.1 hLe)
  have hScan := hMatches.of_keeps addsUp_tracks keeps_tracks rfl 0 (Nat.zero_le limit)
  rw [Node.preorderAll_singleton, hStop] at hScan
  refine hScan.trans ?_
  cases firstOverfull 0 root.preorder <;> rfl

end Parentheses

/-- The scan and the grammar agree on every text. Where the scan stands outside quotes and a quote
follows, a quoted text is read if and only if the scan leaves the quote again, and up to where it
does. In a text that is a filter, the scan finds the first parenthesis, of a group or of a list,
with which more than the limit are open among the matches. -/
theorem scan_agrees (text : List Char) :
    (∀ before c behind, text = before ++ c :: behind → (scan before).1 = .outside →
      c = '\'' ∨ c = '"' →
      ((∃ nodes stop, filterGrammar.Matches text.length (.once (.rule .string)) .initial
          ((Cursor.ofText text).past before) nodes stop) ↔
        ∃ taken, taken <+: c :: behind ∧ LeavesQuote before taken) ∧
      ∀ nodes stop, filterGrammar.Matches text.length (.once (.rule .string)) .initial
          ((Cursor.ofText text).past before) nodes stop →
        ∃ taken, taken <+: c :: behind ∧ LeavesQuote before taken ∧
          stop = ((Cursor.ofText text).past before).past taken) ∧
    ∀ root, IsFilterMatch text root →
      firstExcess text = (firstOverfull 0 root.preorder).map (·.start.offset) := by
  refine ⟨fun before c behind hText hOutside hQuote => ?_, fun root => firstExcess_eq⟩
  have hStart : ((Cursor.ofText text).past before).rest = c :: behind := Cursor.rest_past hText
  obtain ⟨quote, rfl⟩ : ∃ quote : Quote, quote.char = c := by
    rcases hQuote with rfl | rfl
    · exact ⟨.single, rfl⟩
    · exact ⟨.double, rfl⟩
  have hMatch : ∀ nodes stop, filterGrammar.Matches text.length (.once (.rule .string)) .initial
      ((Cursor.ofText text).past before) nodes stop →
      ∃ taken, taken <+: quote.char :: behind ∧ LeavesQuote before taken ∧
        stop = ((Cursor.ofText text).past before).past taken := by
    intro nodes stop h
    obtain ⟨other, body, hBody, hRest, hStop, -⟩ := exists_quoted_of_matches h
    rw [hStart] at hRest
    rw [(List.cons.inj hRest).1]
    refine ⟨other.char :: (body ++ [other.char]), ⟨stop.rest, ?_⟩,
      (leavesQuote_iff hOutside rfl).2 ⟨body, hBody, rfl⟩, hStop⟩
    rw [(List.cons.inj hRest).2]
    simp
  refine ⟨⟨fun ⟨nodes, stop, h⟩ => ?_, fun ⟨taken, hPrefix, hLeaves⟩ => ?_⟩, hMatch⟩
  · obtain ⟨taken, hPrefix, hLeaves, -⟩ := hMatch nodes stop h
    exact ⟨taken, hPrefix, hLeaves⟩
  · have hHead : taken.head? = some quote.char := by
      rcases List.prefix_cons_iff.1 hPrefix with rfl | ⟨_, rfl, -⟩
      · exact absurd rfl hLeaves.ne_nil
      · rfl
    obtain ⟨body, hBody, rfl⟩ := (leavesQuote_iff hOutside hHead).1 hLeaves
    obtain ⟨rest, hRest⟩ := hPrefix
    have hQuoted : ((Cursor.ofText text).past before).rest =
        quote.char :: (body ++ quote.char :: rest) := by
      rw [hStart, ← hRest]
      simp
    exact ⟨_, _, matches_quoted hBody hQuoted⟩

end Nesting

end RowFilter
