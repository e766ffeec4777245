import RowFilter.Proofs.Syntax.Assembly
import RowFilter.Proofs.Syntax.Levels
import RowFilter.Proofs.Syntax.Relocation

/-! Accepted texts in front of more text. A text that spells a filter is read
as the same filter where a parenthesis or a connective stands behind it. The
operands of its chains are read one by one as they were, and what follows the
last one is read by whoever reads the larger text. -/

namespace RowFilter

open Grammar Text Node

variable {length other : Nat} {start stop : Cursor} {nodes : List (Node Rule)}
  {node copy : Node Rule} {connective : Connective} {filter : Filter} {behind : List Char}

section Gaps

/-- It does not matter whether a gap is skipped before more text is written. -/
theorem behindGap_behindGap_append (text behind : List Char) :
    Mode.initial.behindGap isGap (Mode.initial.behindGap isGap text ++ behind) =
      Mode.initial.behindGap isGap (text ++ behind) := by
  by_cases h : Mode.initial.behindGap isGap text = []
  · rw [h, Mode.behindGap_append_of_nil h, List.nil_append]
  · rw [Mode.behindGap_append h, Mode.behindGap_append, Mode.behindGap_idem]
    rwa [Mode.behindGap_idem]

theorem behindGap_skip (cursor : Cursor) :
    Mode.initial.behindGap isGap (Mode.initial.skip filterGrammar.isBlank cursor).rest =
      (Mode.initial.skip filterGrammar.isBlank cursor).rest := by
  rw [Mode.rest_skip]
  exact Mode.initial.behindGap_idem isGap cursor.rest

/-- A cursor in front of which more than a gap stands skips the gap only. -/
theorem rest_skip_append {cursor : Cursor}
    (h : (Mode.initial.skip filterGrammar.isBlank cursor).rest ≠ []) (behind : List Char) :
    (Mode.initial.skip filterGrammar.isBlank cursor).rest ++ behind =
      Mode.initial.behindGap isGap (cursor.rest ++ behind) := by
  rw [Mode.rest_skip] at h ⊢
  exact (Mode.behindGap_append h behind).symm

end Gaps

/-- What is read in a stable way is read again in front of more text, as matches that are like
those from before. -/
theorem accepts_of_isStable {expr : Expr Rule} {P : List (Node Rule) → Prop}
    (hStable : IsStable start.rest.length expr .initial)
    (hStart : Mode.initial.behindGap isGap start.rest = start.rest)
    (hBehind : StopsAt (!isDelimiter ·) behind)
    (h : filterGrammar.Matches length (.once expr) .initial start nodes stop)
    (hNodes : ∀ others, AllAlike Rule.isSpelled nodes others → P others) :
    Accepts filterGrammar other expr .initial (start.rest ++ behind)
      (Mode.initial.behindGap isGap (stop.rest ++ behind)) P := by
  obtain ⟨pieces, hReads, rfl, -⟩ := h
  intro newStart hNewStart
  have hMore := hStable other (Nat.le_refl _) hStart (mem_delimiters hBehind) hReads
  rw [← hNewStart] at hMore
  have hRest := Cursor.rest_past hMore.text_eq
  refine ⟨_, newStart.past (Piece.textOf pieces), ⟨pieces, by rwa [hRest], rfl, rfl⟩, ?_, ?_⟩
  · rw [hRest]
    rfl
  · exact hNodes _ ((Piece.allAlike_self pieces).locateAll hReads.text_eq hMore.text_eq)

section Parts

private theorem accepts_keyword (other : Nat)
    (hStart : Mode.initial.behindGap isGap start.rest = start.rest)
    (hBehind : StopsAt (!isDelimiter ·) behind)
    (h : filterGrammar.Matches length (.once (.rule connective.keyword)) .initial start nodes
      stop) :
    Accepts filterGrammar other (.rule connective.keyword) .initial (start.rest ++ behind)
      (Mode.initial.behindGap isGap (stop.rest ++ behind))
      (IsShown connective.keyword (· = [])) := by
  refine accepts_of_isStable (isStable_keyword connective) hStart hBehind h ?_
  obtain ⟨node, rfl, hLeaf⟩ := exists_keyword h
  intro others hOthers
  obtain ⟨moved, rest, rfl, hMoved, hRest⟩ := hOthers.exists_cons
  obtain rfl := hRest.eq_nil
  obtain ⟨rule, first, last, parts⟩ := node
  obtain rfl : rule = connective.keyword := hLeaf.rule_eq
  obtain rfl : parts = [] := hLeaf.parts_eq
  obtain ⟨first, last, parts, rfl, hParts⟩ := hMoved.exists_eq
  exact ⟨first, last, parts, rfl, hParts.eq_nil⟩

/-- A match that is like that of a condition or a negation builds the same filter. -/
theorem buildsFilter_of_alike (h : MatchesSimple length start [node] stop)
    (hFilter : Filter.ofNode node = .ok filter) (hAlike : Node.Alike Rule.isSpelled node copy) :
    BuildsFilter filter [copy] := by
  rcases h.of_choice with hNegation | hCondition
  · obtain ⟨_, hBody, hNodes⟩ := hNegation.of_rule
    obtain ⟨_, _, _, hKeyword, hCondition, rfl⟩ := hBody.of_seq
    obtain ⟨keyword, rfl, hLeaf⟩ := exists_isLeaf_of_atomic hKeyword rfl rfl
    obtain ⟨inner, rfl, hInner⟩ := exists_isCondition hCondition
    obtain rfl : node = .node .negation start stop [keyword, inner] := (List.cons.inj hNodes).1
    exact hInner.buildsFilter_negation hLeaf hAlike hFilter
  · obtain ⟨_, hNodes, hNode⟩ := exists_isCondition hCondition
    obtain rfl := (List.cons.inj hNodes).1
    exact hNode.buildsFilter_of_alike hAlike hFilter

private theorem operandAt_simple (hStart : Mode.initial.behindGap isGap start.rest = start.rest)
    (hBehind : StopsAt (!isDelimiter ·) behind) (h : MatchesSimple length start [node] stop)
    (hFilter : Filter.ofNode node = .ok filter) :
    OperandAt other .and (start.rest ++ behind)
      (Mode.initial.behindGap isGap (stop.rest ++ behind)) filter := by
  intro _
  have hAccepts : Accepts filterGrammar other (.choice (.rule .negation) (.rule .condition))
      .initial (start.rest ++ behind) (Mode.initial.behindGap isGap (stop.rest ++ behind))
      (AddsOperand filter) := by
    refine accepts_of_isStable isStable_simpleFactor hStart hBehind h fun others hOthers => ?_
    obtain ⟨moved, rest, rfl, hMoved, hRest⟩ := hOthers.exists_cons
    obtain rfl := hRest.eq_nil
    exact (buildsFilter_of_alike h hFilter hMoved).addsOperand
  obtain ⟨_, _, ⟨_, hReads, -⟩, -⟩ := hAccepts (.ofText (start.rest ++ behind)) rfl
  exact .silent (.choiceSecond (excludes_simpleFactor_group hReads) hAccepts) rfl

private theorem rest_of_mark {rule : Rule} {word : String} {c : Char}
    (hBody : filterGrammar.body rule = .literal word) (hWord : word.toList = [c])
    (h : filterGrammar.Matches length (.once (.rule rule)) .initial start nodes stop) :
    start.rest = c :: stop.rest := by
  obtain ⟨_, hReads, -⟩ := h
  obtain ⟨_, hParts, -⟩ := hReads.of_rule
  rw [hBody] at hParts
  have hText := hParts.of_literal.2
  rwa [hWord] at hText

end Parts

/-- An operand or the beginning of a chain is read alike in front of more text. -/
private def Level.GoesOn (other : Nat) (behind : List Char) :
    Level → Cursor → Cursor → Filter → Prop
  | .operand connective, start, stop, filter => OperandAt other connective (start.rest ++ behind)
      (Mode.initial.behindGap isGap (stop.rest ++ behind)) filter
  | .chain connective, start, stop, filter => ChainAt other connective (start.rest ++ behind)
      (Mode.initial.behindGap isGap (stop.rest ++ behind)) filter
  | .rest _, _, _, _ => True

private theorem MakesUp.goesOn {level : Level} (h : MakesUp length level start stop filter)
    (hStart : Mode.initial.behindGap isGap start.rest = start.rest)
    (hBehind : StopsAt (!isDelimiter ·) behind) : level.GoesOn other behind start stop filter := by
  -- Something is read behind each gap within the filter, so these gaps stay as they are.
  induction h with
  | simple hMatch hFilter => exact operandAt_simple hStart hBehind hMatch hFilter
  | @group start stop middle last _ _ filter hLeft hInner hRight ih =>
    have hLeftRest : start.rest = '(' :: middle.rest := rest_of_mark rfl rfl hLeft
    have hRightRest : (Mode.initial.skip filterGrammar.isBlank last).rest = ')' :: stop.rest :=
      rest_of_mark rfl rfl hRight
    have hChain : ChainAt other .or _ (Mode.initial.behindGap isGap (last.rest ++ behind)) filter :=
      ih (behindGap_skip middle)
    rw [← rest_skip_append (hRight.rest_ne_nil filterGrammar_ranked rfl), hRightRest] at hChain
    change OperandAt other .and (start.rest ++ behind) _ filter
    rw [hLeftRest]
    exact hChain.enclosed (rest_skip_append hInner.rest_ne_nil behind).symm rfl
  | conjunction _ ih => exact (ih hStart).operandAt
  | first _ ih => exact (ih hStart).chainAt (IsBehindGap.stopsAt rfl)
  | @join connective start stop middle last _ left right _ hKeyword hRight ihLeft ihRight =>
    have hWord := accepts_keyword other (behindGap_skip stop) hBehind hKeyword
    have hNext : OperandAt other connective _
        (Mode.initial.behindGap isGap (last.rest ++ behind)) right := ihRight (behindGap_skip middle)
    have hNonempty := hKeyword.rest_ne_nil filterGrammar_ranked (by cases connective <;> rfl)
    rw [rest_skip_append hNonempty] at hWord
    rw [rest_skip_append hRight.rest_ne_nil] at hNext
    exact (ihLeft hStart).join hWord hNext _
  | @gap connective start stop filter _ ih =>
    change ChainAt other connective (start.rest ++ behind) (Mode.initial.behindGap isGap
      ((Mode.initial.skip filterGrammar.isBlank stop).rest ++ behind)) filter
    rw [Mode.rest_skip]
    exact (behindGap_behindGap_append stop.rest behind).symm ▸ ih hStart

/-- A text that spells a filter begins a chain of `OR` that spells the filter. -/
theorem Filter.chainAt_of_parse {source : String} (h : parse source = .ok filter) (other : Nat)
    (hBehind : StopsAt (!Text.isDelimiter ·) behind) :
    ChainAt other .or (Mode.initial.behindGap isGap (source.toList ++ behind))
      (Mode.initial.behindGap isGap behind) filter := by
  obtain ⟨start, stop, -, hStart, hStop, hMakesUp⟩ := exists_makesUp_of_parse h
  have hNonempty := hMakesUp.rest_ne_nil
  have hChain : ChainAt other .or (start.rest ++ behind)
      (Mode.initial.behindGap isGap (stop.rest ++ behind)) filter :=
    hMakesUp.goesOn (by rw [hStart, Mode.behindGap_idem]) hBehind
  rw [hStart] at hNonempty
  rwa [hStart, Mode.behindGap_append_of_nil hStop, ← Mode.behindGap_append hNonempty] at hChain

end RowFilter
