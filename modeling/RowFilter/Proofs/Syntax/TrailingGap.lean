import RowFilter.Proofs.Syntax.Copied
import RowFilter.Proofs.Syntax.Detached
import RowFilter.Proofs.Syntax.Layout

/-! Gaps at the end of a text. A text spells the same filter, with the same
spans, whether gaps stand behind it or not. All tokens are read as they were.
Only the matches of chains may end with the gap, and no span is taken from
these. -/

namespace RowFilter

open Grammar Text

variable {length other : Nat} {text gaps : List Char}

namespace Respaced

private theorem not_endsQuoted_append {quote : Quote} {gaps : List Char}
    (h : ¬EndsQuoted quote text) (hGaps : ∀ c ∈ gaps, isGap c = true) :
    ¬EndsQuoted quote (text ++ gaps) := by
  rintro ⟨body, rest, hBody, hText⟩
  rcases List.append_eq_append_iff.1 hText with ⟨behind, -, hBehind⟩ | ⟨behind, hFront, hBehind⟩
  · have hQuote := hGaps quote.char (by rw [hBehind]; simp)
    rw [isGap_quote] at hQuote
    cases hQuote
  · cases behind with
    | nil =>
      have hQuote := hGaps quote.char (by rw [← List.nil_append gaps, ← hBehind]; simp)
      rw [isGap_quote] at hQuote
      cases hQuote
    | cons c behind =>
      obtain ⟨rfl, -⟩ := List.cons.inj hBehind
      exact h ⟨body, behind, hBody, hFront⟩

/-- A text may have more gaps at its end. The induction is on the length: a quoted text takes two
characters at least. -/
theorem append_gaps (text : List Char) {gaps : List Char} (hGaps : ∀ c ∈ gaps, isGap c = true) :
    Respaced text (text ++ gaps) := by
  induction hLength : text.length using Nat.strongRecOn generalizing text with
  | _ n ih =>
    subst hLength
    cases text with
    | nil => exact .ends nofun hGaps
    | cons c text =>
      have hRest := ih text.length (Nat.lt_succ_self _) text rfl
      cases hGap : isGap c with
      | true =>
        have hOne : ∀ d ∈ [c], isGap d = true := List.forall_mem_singleton.2 hGap
        exact @Respaced.gap [c] [c] _ _ hOne hOne nofun nofun hRest
      | false =>
        by_cases hQuoted : ∃ quote : Quote, c = quote.char ∧ EndsQuoted quote text
        · obtain ⟨quote, rfl, body, rest, hBody, rfl⟩ := hQuoted
          have hBehind := ih rest.length (by simp; omega) rest rfl
          simpa using Respaced.quoted hBody hBehind
        · have hNone (quote : Quote) (hQuote : c = quote.char) : ¬EndsQuoted quote text :=
            fun hEnds => hQuoted ⟨quote, hQuote, hEnds⟩
          have hMore (quote : Quote) (hQuote : c = quote.char) :
              ¬EndsQuoted quote (text ++ gaps) := not_endsQuoted_append (hNone quote hQuote) hGaps
          exact .char hGap hNone hMore hRest

end Respaced

section Tokens

variable {rule : Rule}

/-- The rules whose matches end with a token. -/
def Rule.isTight (rule : Rule) : Bool := rule ∉ [.disjunction, .conjunction]

private theorem isTrailed_of_detaches (hRule : isInner rule = true)
    (h : ∀ bound, Detaches filterGrammar bound (.rule rule) fun _ => True) :
    IsTrailed filterGrammar isInner Rule.isTight Rule.consuming rule := by
  refine .leaf fun {length other text gaps outcome} hGaps hText hOther hStart hReads => ?_
  cases outcome with
  | none =>
    have hBehind : (text ++ gaps).length ≤ other := by rwa [List.length_append]
    exact (Respaced.append_gaps text hGaps).reads_none hRule hText hBehind hReads
  | some success =>
    obtain ⟨pieces, rest⟩ := success
    have hBegins : BeginsLike isGap rest (rest ++ gaps) := by
      intro c hc
      cases rest with
      | nil => exact .inl (hGaps c (List.mem_of_mem_head? hc))
      | cons => exact .inr hc
    have hMore := h _ other (Nat.le_refl _) hStart hReads hBegins trivial
    rw [← List.append_assoc, ← hReads.text_eq] at hMore
    exact hMore

private def isNamePart (rule : Rule) : Bool :=
  rule ∈ [.name, .nameChar, .reserved, .number, .sign, .digits, .exponent]

private theorem rejects_gaps (h : isNamePart rule = true) :
    (filterGrammar.body rule).rejects isNamePart [' ', '\t', '\r', '\n'] = true := by
  revert h
  cases rule <;> decide

private theorem isTrailed_name :
    IsTrailed filterGrammar isInner Rule.isTight Rule.consuming .name := by
  refine .leaf fun {length other text gaps outcome} hGaps _ _ _ hReads => ?_
  have hHead : ∀ c ∈ gaps.head?, c ∈ [' ', '\t', '\r', '\n'] := by
    intro c hc
    have hGap : isGap c = true := hGaps c (List.mem_of_mem_head? hc)
    simpa [isGap, or_assoc] using hGap
  cases hReads with
  | rule hBody =>
    rw [← Outcome.ofBody_followedBy]
    exact .rule (hBody.followedBy (fun _ => rejects_gaps) hHead other (rejects_gaps rfl))

/-- Blanks at the end of a text do not matter to the rules of filters. -/
theorem isTrailed (h : isInner rule = true) :
    IsTrailed filterGrammar isInner Rule.isTight Rule.consuming rule := by
  cases rule
  case name => exact isTrailed_name
  case number => exact isTrailed_of_detaches rfl fun _ => detaches_number
  case comparisonSymbol => exact isTrailed_of_detaches rfl fun _ => detaches_comparisonSymbol
  case keywordAnd | keywordOr | keywordNot | keywordIn =>
    exact isTrailed_of_detaches rfl fun _ => @detaches_phrase _ _ _ _ [] rfl rfl rfl rfl
  case keywordNotIn | isNull =>
    exact isTrailed_of_detaches rfl fun _ => @detaches_phrase _ _ _ _ [_] rfl rfl rfl rfl
  case isNotNull =>
    exact isTrailed_of_detaches rfl fun _ => @detaches_phrase _ _ _ _ [_, _] rfl rfl rfl rfl
  case leftParen | rightParen | comma | backtick =>
    exact isTrailed_of_detaches rfl fun _ => detaches_mark rfl
  case string => exact isTrailed_of_detaches rfl fun _ => detaches_string
  case endOfInput | whitespace | filter | nameChar | reserved | sign | digits | exponent
      | doubleQuoted | singleQuoted | gap => cases h
  case disjunction | conjunction => exact .joined rfl rfl nofun
  all_goals exact .joined rfl rfl fun _ => rfl

/-- Nothing of a filter is read where nothing stands. -/
theorem reads_none_nil (h : isInner rule = true) (length : Nat) :
    filterGrammar.Reads length (.once (.rule rule)) .initial [] none := by
  obtain ⟨outcome, hReads⟩ :=
    exists_reads filterGrammar_ranked rule .initial (List.length_nil.trans_le (Nat.zero_le length))
  cases outcome with
  | none => exact hReads
  | some success =>
    have hConsumes : Rule.consuming rule = true := by cases rule <;> first | rfl | cases h
    exact absurd rfl (filterGrammar_ranked.text_ne_nil hReads hConsumes)

end Tokens

section Filters

variable {connective : Connective} {chain otherChain : Node Rule} {nodes others : List (Node Rule)}
  {source more : String} {filter : Filter}

private theorem chainOf_trails (h : Node.Trails Rule.isTight nodes others)
    (connective : Connective) (chain otherChain : Node Rule) (joined : Option Filter) :
    (Filter.chainOf connective chain joined nodes).toOption =
      (Filter.chainOf connective otherChain joined others).toOption := by
  induction h generalizing connective chain otherChain joined with
  | copied h => exact Filter.chainOf_copied _ _ h
  | @shown before ahead parts others rule start stop first last hBefore hRule _ ih =>
    have hLast : (Filter.ofNode (.node rule start stop parts)).toOption =
        (Filter.ofNode (.node rule first last others)).toOption := by
      have hChains : rule = .disjunction ∨ rule = .conjunction := by
        revert hRule
        cases rule <;> decide
      rcases hChains with rfl | rfl
      · rw [Filter.ofNode, Filter.ofNode]
        exact ih ..
      · rw [Filter.ofNode, Filter.ofNode]
        exact ih ..
    induction before generalizing ahead joined with
    | nil =>
      rw [hBefore.eq_nil]
      exact Filter.chainOf_cons rfl hLast fun joined => by cases joined <;> rfl
    | cons node before ihBefore =>
      obtain ⟨other, ahead, rfl, hNode, hNodes⟩ := hBefore.exists_cons
      exact Filter.chainOf_cons hNode.rule_eq (Filter.ofNode_copied node other hNode) fun joined =>
        ihBefore hNodes joined

private theorem eq_of_parse (hText : more.toList = source.toList ++ gaps)
    (hGaps : ∀ c ∈ gaps, isGap c = true) {read : Filter} (h : Filter.parse source = .ok filter)
    (hMore : Filter.parse more = .ok read) : read = filter := by
  obtain ⟨-, start, stop, parts, ⟨before, hSource, hStands⟩, hStart, ⟨pieces, hReads, hNodes, -⟩, -,
    hFilter⟩ := Filter.exists_disjunction_of_parse h
  obtain ⟨-, first, last, others, ⟨ahead, hAll, hAhead⟩, hFirst,
    ⟨otherPieces, hOtherReads, hOthers, -⟩, -, hRead⟩ := Filter.exists_disjunction_of_parse hMore
  have hNonempty : Mode.initial.behindGap isGap source.toList ≠ [] :=
    hStart ▸ filterGrammar_ranked.text_ne_nil hReads rfl
  have hBehind : first.rest = start.rest ++ gaps := by
    rw [hFirst, hStart, hText, Mode.behindGap_append hNonempty]
  have hLe : start.rest.length ≤ source.toList.length := by
    rw [hStart]
    exact Mode.length_behindGap_le ..
  have hIdem : Mode.initial.behindGap isGap start.rest = start.rest := by
    rw [hStart, Mode.behindGap_idem]
  have hLength : start.rest.length + gaps.length ≤ more.toList.length := by
    rw [hText, List.length_append]
    omega
  -- the disjunction is read again in front of the gaps, as pieces that take these at most
  obtain ⟨result, hResult, hTrails⟩ := hReads.exists_trails filterGrammar_ranked
    (fun _ => reads_none_nil) (fun _ => isTrailed) hGaps rfl hLe hLength hIdem
  rw [← hBehind] at hResult
  obtain rfl := hResult.unique hOtherReads
  have hBefore : before = ahead := by
    rw [hSource, hAll, hBehind, ← List.append_assoc] at hText
    exact (List.append_cancel_right (List.append_cancel_right hText)).symm
  have hTexts : (Cursor.ofText source.toList).IsLevel (Cursor.ofText more.toList) := ⟨rfl, rfl⟩
  have hLevel : start.IsLevel first := by
    rw [hStands, hAhead, hBefore]
    exact hTexts.past ahead
  have hMatches := hTrails.pieces_trails.locateAll hLevel hReads.text_eq hOtherReads.text_eq
  rw [← hNodes, ← hOthers] at hMatches
  have hSame := chainOf_trails hMatches .or (.node .disjunction start stop parts)
    (.node .disjunction first last others) none
  rw [Filter.chainOf_operand rfl, Filter.chainOf_operand rfl, Filter.ofNode, Filter.ofNode, hFilter,
    hRead] at hSame
  exact (Option.some.inj hSame).symm

end Filters

/-- Gaps at the end of a text do not matter to what it spells, nor to whether it spells anything. -/
theorem Filter.parse_append_gaps {source more : String} {gaps : List Char}
    (hText : more.toList = source.toList ++ gaps) (hGaps : ∀ c ∈ gaps, isGap c = true) :
    (parse more).toOption = (parse source).toOption := by
  have hLayout := (Respaced.append_gaps source.toList hGaps).dropWhile
  rw [← hText] at hLayout
  have hErased := parse_respaced hLayout
  cases hSource : parse source with
  | error =>
    cases hMore : parse more with
    | error => rfl
    | ok =>
      rw [hSource, hMore] at hErased
      cases hErased
  | ok filter =>
    cases hMore : parse more with
    | error =>
      rw [hSource, hMore] at hErased
      cases hErased
    | ok read => rw [eq_of_parse hText hGaps hSource hMore]

end RowFilter
