import RowFilter.Proofs.Syntax.Conditions
import RowFilter.Proofs.Syntax.Lookahead
import RowFilter.Proofs.Syntax.Parse

/-! Operands and chains of a connective at a place of a text. A text is read as
an operand or as the beginning of a chain up to a place, whatever follows
there. The readings of larger texts are put together from these, and a text
that is one chain spells the filter of the chain. -/

namespace RowFilter

open Grammar Text

/-- Matches that add an operand to whatever chain they are a part of. -/
def AddsOperand (filter : Filter) (nodes : List (Node Rule)) : Prop :=
  ∃ built, built.eraseSpans = filter.eraseSpans ∧ ∀ connective node joined others,
    Filter.chainOf connective node joined (nodes ++ others) =
      Filter.chainOf connective node (some (connective.attach joined built)) others

/-- Matches that are joined to a filter where they begin a chain. -/
def BeginsChain (connective : Connective) (filter : Filter) (nodes : List (Node Rule)) : Prop :=
  ∃ built, built.eraseSpans = filter.eraseSpans ∧ ∀ node others,
    Filter.chainOf connective node none (nodes ++ others) =
      Filter.chainOf connective node (some built) others

section Matches

variable {filter left right : Filter} {connective : Connective} {nodes others : List (Node Rule)}
  {rule : Rule}

theorem BuildsFilter.addsOperand (h : BuildsFilter filter nodes) : AddsOperand filter nodes := by
  obtain ⟨node, built, rfl, hDelimiter, -, hNode, hErased⟩ := h
  refine ⟨built, hErased, fun connective chain joined others => ?_⟩
  rw [List.singleton_append, Filter.chainOf_operand hDelimiter, hNode]
  rfl

theorem AddsOperand.beginsChain (h : AddsOperand filter nodes) :
    BeginsChain connective filter nodes := by
  obtain ⟨built, hErased, hChain⟩ := h
  exact ⟨built, hErased, fun node others => hChain connective node none others⟩

/-- Words and parentheses leave no trace in a chain. -/
theorem chainOf_mark (h : IsShown rule (· = []) nodes) (hRule : Filter.isDelimiter rule = true)
    (node : Node Rule) (joined : Option Filter) :
    Filter.chainOf connective node joined (nodes ++ others) =
      Filter.chainOf connective node joined others := by
  obtain ⟨start, stop, parts, rfl, -⟩ := h
  exact Filter.chainOf_delimiter hRule

/-- One more operand is joined to the chain before it. -/
theorem BeginsChain.join {first word second : List (Node Rule)} {span : Span}
    (hLeft : BeginsChain connective left first) (hWord : IsShown connective.keyword (· = []) word)
    (hRight : AddsOperand right second) :
    BeginsChain connective (connective.join left right span) (first ++ (word ++ second)) := by
  obtain ⟨leftBuilt, hLeftErased, hLeftChain⟩ := hLeft
  obtain ⟨rightBuilt, hRightErased, hRightChain⟩ := hRight
  refine ⟨connective.attach (some leftBuilt) rightBuilt, ?_, fun node others => ?_⟩
  · rw [Connective.attach, Filter.eraseSpans_join, Filter.eraseSpans_join, hLeftErased,
      hRightErased]
  · rw [List.append_assoc, List.append_assoc, hLeftChain,
      chainOf_mark hWord (Filter.isDelimiter_keyword connective), hRightChain]

/-- The match of a chain builds what its matches are joined to. -/
theorem buildsFilter_chain (connective : Connective)
    (h : IsShown connective.chainRule (BeginsChain connective filter) nodes) :
    BuildsFilter filter nodes := by
  obtain ⟨start, stop, parts, rfl, built, hErased, hChain⟩ := h
  have hEnd (node : Node Rule) : Filter.chainOf connective node none parts = .ok built := by
    have hNil := hChain node []
    rwa [List.append_nil, Filter.chainOf] at hNil
  have hRule : Filter.isDelimiter connective.chainRule = false ∧
      connective.chainRule ≠ .keywordNot := by
    cases connective <;> decide
  refine ⟨_, built, rfl, hRule.1, hRule.2, ?_, hErased⟩
  cases connective <;> exact (Filter.ofNode.eq_def _).trans (hEnd _)

/-- Parentheses leave no trace but the shape of the tree. -/
theorem BuildsFilter.enclosed {first second : List (Node Rule)}
    (hFirst : IsShown .leftParen (· = []) first) (h : BuildsFilter filter nodes)
    (hSecond : IsShown .rightParen (· = []) second) :
    AddsOperand filter (first ++ (nodes ++ second)) := by
  obtain ⟨built, hErased, hChain⟩ := h.addsOperand
  refine ⟨built, hErased, fun connective node joined others => ?_⟩
  rw [List.append_assoc, List.append_assoc, chainOf_mark hFirst rfl, hChain,
    chainOf_mark hSecond rfl]

end Matches

section Places

variable {length : Nat} {text inner middle next rest : List Char} {connective : Connective}
  {filter left right : Filter}

/-- Where an operand ends: its own connectives do not follow. -/
def EndsOperand (length : Nat) (connective : Connective) (rest : List Char) : Prop :=
  connective = .or → Refuses filterGrammar length (.rule .keywordAnd) .initial rest

/-- Where a chain ends: neither its connective nor those of its operands follow. -/
def EndsChain (length : Nat) (connective : Connective) (rest : List Char) : Prop :=
  Refuses filterGrammar length (.rule connective.keyword) .initial rest ∧
    EndsOperand length connective rest

def furtherOperand (connective : Connective) : Expr Rule :=
  .seq (.rule connective.keyword) (.rule connective.operandRule)

/-- A text is read as an operand of a connective up to a place where operands may end. -/
def OperandAt (length : Nat) (connective : Connective) (text rest : List Char)
    (filter : Filter) : Prop :=
  EndsOperand length connective rest →
    Accepts filterGrammar length (.rule connective.operandRule) .initial text rest
      (AddsOperand filter)

/-- A text is read as the beginning of a chain up to a place, whatever further operands follow
there. -/
def ChainAt (length : Nat) (connective : Connective) (text middle : List Char)
    (filter : Filter) : Prop :=
  ∀ rest P, EndsOperand length connective middle →
    Continues filterGrammar length (furtherOperand connective) .initial middle rest P →
    Accepts filterGrammar length connective.chainRule.body .initial text rest
      (Joined (BeginsChain connective filter) P)

/-- An operand may end where its connective stands. -/
theorem EndsOperand.of_accepts {P : List (Node Rule) → Prop}
    (h : Accepts filterGrammar length (.rule connective.keyword) .initial text rest P) :
    EndsOperand length connective text := by
  rintro rfl
  obtain ⟨_, _, ⟨_, hReads, -⟩, -⟩ := h (.ofText text) rfl
  exact excludes_or_and hReads

/-- An operand begins a chain. -/
theorem OperandAt.chainAt (h : OperandAt length connective text middle filter)
    (hStops : StopsAt isGap middle) : ChainAt length connective text middle filter := by
  intro rest P hEnds hFurther
  rw [Connective.body_chainRule]
  have hOperands : Accepts filterGrammar length (.many (furtherOperand connective)) .initial
      middle rest P := .many hFurther (isBehindGap_self hStops)
  apply ((h hEnds).seq hOperands).mono
  rintro _ ⟨first, others, rfl, hFirst, hOthers⟩
  exact ⟨first, others, rfl, hFirst.beginsChain, hOthers⟩

namespace ChainAt

/-- A chain goes on with one more operand. -/
theorem join (hLeft : ChainAt length connective text middle left)
    (hWord : Accepts filterGrammar length (.rule connective.keyword) .initial middle next
      (IsShown connective.keyword (· = [])))
    (hRight : OperandAt length connective next rest right) (span : Span) :
    ChainAt length connective text rest (connective.join left right span) := by
  intro stop P hEnds hFurther
  have hMore := Continues.more (hWord.seq (hRight hEnds)) hFurther
  refine (hLeft _ _ (.of_accepts hWord) hMore).mono ?_
  rintro _ ⟨first, _, rfl, hFirst, _, others, rfl, ⟨word, second, rfl, hWordNodes, hSecond⟩,
    hOthers⟩
  refine ⟨first ++ (word ++ second), others, ?_, hFirst.join hWordNodes hSecond, hOthers⟩
  rw [List.append_assoc, List.append_assoc, List.append_assoc]

/-- A chain is read up to its end. -/
theorem accepts (h : ChainAt length connective text rest filter)
    (hEnds : EndsChain length connective rest) :
    Accepts filterGrammar length (.rule connective.chainRule) .initial text rest
      (IsShown connective.chainRule (BeginsChain connective filter)) := by
  have hDone : Continues filterGrammar length (furtherOperand connective) .initial rest rest
      (· = []) := .done (.seqFirst hEnds.1)
  have hChain := (h rest _ hEnds.2 hDone).mono (Q := BeginsChain connective filter) (by
    rintro _ ⟨first, _, rfl, hFirst, rfl⟩
    rwa [List.append_nil])
  exact .normal hChain (by cases connective <;> rfl) rfl

/-- A chain of operands of `AND` is an operand of `OR`. -/
theorem operandAt (h : ChainAt length .and text rest filter) :
    OperandAt length .or text rest filter :=
  fun hEnds => (h.accepts ⟨hEnds rfl, nofun⟩).mono fun _ hNodes =>
    (buildsFilter_chain .and hNodes).addsOperand

/-- A chain of operands of `OR` between parentheses is an operand of `AND`. -/
theorem enclosed (h : ChainAt length .or text (')' :: rest) filter)
    (hInner : IsBehindGap inner text) (hGap : IsBehindGap rest next) :
    OperandAt length .and ('(' :: inner) next filter := by
  intro _
  have hLeft : Accepts filterGrammar length (.rule .leftParen) .initial ('(' :: inner) text
      (IsShown .leftParen (· = [])) := accepts_mark rfl rfl rfl hInner
  have hChain : Accepts filterGrammar length (.rule .disjunction) .initial text (')' :: rest)
      (IsShown .disjunction (BeginsChain .or filter)) :=
    h.accepts ⟨refuses_word rfl rfl rfl, fun _ => refuses_word rfl rfl rfl⟩
  have hRight : Accepts filterGrammar length (.rule .rightParen) .initial (')' :: rest) next
      (IsShown .rightParen (· = [])) := accepts_mark rfl rfl rfl hGap
  have hGroup : Accepts filterGrammar length (.rule .group) .initial ('(' :: inner) next
      (Joined (IsShown .leftParen (· = [])) (Joined (IsShown .disjunction (BeginsChain .or filter))
        (IsShown .rightParen (· = [])))) := .silent (hLeft.seq (hChain.seq hRight)) rfl
  refine .silent (.choiceFirst (hGroup.mono ?_)) rfl
  rintro _ ⟨first, _, rfl, hFirst, nodes, second, rfl, hNodes, hSecond⟩
  exact (buildsFilter_chain .or hNodes).enclosed hFirst hSecond

end ChainAt

/-- What is left behind a gap begins with none. -/
theorem IsBehindGap.stopsAt {behind : List Char} (h : IsBehindGap behind rest) :
    StopsAt isGap rest := by
  rw [← h]
  exact stopsAt_dropWhile behind

end Places

section Texts

variable {filter : Filter} {text : List Char}

/-- A text that is read as one disjunction is a filter. Its match holds those of the disjunction. -/
theorem IsFilterMatch.exists_of_accepts {P : List (Node Rule) → Prop}
    (h : Accepts filterGrammar text.length (.rule .disjunction) .initial
      (Mode.initial.behindGap isGap text) [] P) :
    ∃ start stop endStart endStop nodes, P nodes ∧ IsFilterMatch text
      (.node .filter start stop (nodes ++ [.node .endOfInput endStart endStop []])) := by
  have hStart : Accepts filterGrammar text.length .atStart .initial text
      (Mode.initial.behindGap isGap text) (· = []) := .atStart rfl
  have hEnd : Accepts filterGrammar text.length (.rule .endOfInput) .initial [] []
      (IsShown .endOfInput (· = [])) := .normal .atEnd rfl rfl
  have hFilter : Accepts filterGrammar text.length (.rule .filter) .initial text []
      (IsShown .filter (Joined (· = []) (Joined P (IsShown .endOfInput (· = []))))) :=
    .normal (hStart.seq (h.seq hEnd)) rfl rfl
  obtain ⟨_, last, hMatches, -, start, stop, _, rfl, _, _, rfl, rfl, nodes, _, rfl, hNodes,
    endStart, endStop, _, rfl, rfl⟩ := hFilter (.ofText text) rfl
  exact ⟨start, stop, endStart, endStop, nodes, hNodes, last, hMatches⟩

/-- A text of one chain of `OR` within the limit on parentheses is read as the filter that the
chain spells. -/
theorem Filter.parse_of_chainAt {source : String} (hWithin : Nesting.IsWithinLimit source.toList)
    (h : ChainAt source.toList.length .or (Mode.initial.behindGap isGap source.toList) [] filter) :
    ∃ read, parse source = .ok read ∧ read.eraseSpans = filter.eraseSpans := by
  have hChain := h.accepts ⟨refuses_word rfl rfl rfl, fun _ => refuses_word rfl rfl rfl⟩
  obtain ⟨_, _, _, _, nodes, hNodes, hRoot⟩ := IsFilterMatch.exists_of_accepts hChain
  obtain ⟨node, read, rfl, -, -, hNode, hErased⟩ := buildsFilter_chain .or hNodes
  refine ⟨read, (parse_of_match hWithin hRoot).trans ?_, hErased⟩
  have hRule : node.rule = .disjunction := by
    obtain ⟨_, _, parts, hShown, -⟩ := hNodes
    rw [(List.cons.inj hShown).1]
    rfl
  exact (ofNodes_eq_ok rfl hRule).2 hNode

end Texts

end RowFilter
