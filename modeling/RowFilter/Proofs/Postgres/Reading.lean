import RowFilter.Proofs.Filter.Association
import RowFilter.Proofs.Filter.Canonical
import RowFilter.Proofs.Filter.Regular
import RowFilter.Proofs.Filter.Rendering
import RowFilter.Proofs.Postgres.Grammar
import RowFilter.Proofs.Postgres.Lexing
import RowFilter.Proofs.Syntax.Parse

/-! PostgreSQL conditions are read as what they were written from. Chains are
read with the association of SQL, so a filter comes back up to the
association of its chains and up to spans. -/

namespace RowFilter.Postgres

open Text

section Chains

variable {c : Connective} {tokens first second : List Token} {left front f g : Filter}

private theorem Derives.prepend (h : Derives (.more c left) tokens f) {start : Filter}
    (hStart : start.Reassociates (c.join front left .none)) :
    ∃ g, Derives (.more c start) tokens g ∧ g.Reassociates (c.join front f .none) := by
  generalize hPhrase : Phrase.more c left = phrase at h
  induction h generalizing left start with
  | predicate | negation | parentheses | chain => cases hPhrase
  | done =>
    cases hPhrase
    exact ⟨start, .done c start, hStart⟩
  | @more _ _ _ earlier right _ hNext _ _ ihMore =>
    cases hPhrase
    have hAssoc := (Filter.Reassociates.join c .none .none hStart (.refl right)).trans
      (.assoc c front earlier right .none .none .none .none)
    obtain ⟨g, hDerives, hReassociates⟩ := ihMore hAssoc rfl
    exact ⟨g, .more hNext hDerives, hReassociates⟩

private theorem Derives.append_more (hFirst : Derives (.more c left) first f)
    (hSecond : Derives (.chain c) second g) :
    ∃ joined, Derives (.more c left) (first ++ connectiveWord c :: second) joined ∧
      joined.Reassociates (c.join f g .none) := by
  generalize hPhrase : Phrase.more c left = phrase at hFirst
  induction hFirst generalizing left with
  | predicate | negation | parentheses | chain => cases hPhrase
  | done =>
    cases hPhrase
    cases hSecond with
    | chain hNext hMore =>
      obtain ⟨joined, hDerives, hReassociates⟩ := Derives.prepend hMore (.refl _)
      exact ⟨joined, .more hNext hDerives, hReassociates⟩
  | more hNext _ _ ihMore =>
    cases hPhrase
    obtain ⟨joined, hDerives, hReassociates⟩ := ihMore rfl
    refine ⟨joined, ?_, hReassociates⟩
    rw [List.cons_append, List.append_assoc]
    exact .more hNext hDerives

/-- Two chains of one connective are a chain, with the connective between them. -/
theorem Derives.append (hFirst : Derives (.chain c) first f)
    (hSecond : Derives (.chain c) second g) :
    ∃ joined, Derives (.chain c) (first ++ connectiveWord c :: second) joined ∧
      joined.Reassociates (c.join f g .none) := by
  cases hFirst with
  | chain hOperand hMore =>
    obtain ⟨joined, hDerives, hReassociates⟩ := Derives.append_more hMore hSecond
    refine ⟨joined, ?_, hReassociates⟩
    rw [List.append_assoc]
    exact .chain hOperand hDerives

end Chains

section Predicates

/-- A literal is a token that has its value. -/
theorem exists_literal {value : Literal} (h : value.IsRegular) :
    ∃ token, Lexes (literal value).toList [token] ∧ literal? token = some value := by
  cases value with
  | text text => exact ⟨.string text, lexes_string text, rfl⟩
  | integer n =>
    obtain ⟨spelling, hSpelled⟩ := Literal.exists_spelling_integer n
    exact ⟨.number spelling.numeral, hSpelled.canonical_eq ▸ lexes_number spelling,
      hSpelled.ofNumeral?_eq⟩
  | float x =>
    obtain ⟨spelling, hSpelled⟩ := Literal.exists_spelling_float h
    exact ⟨.number spelling.numeral, hSpelled.canonical_eq ▸ lexes_number spelling,
      hSpelled.ofNumeral?_eq⟩

theorem exists_operand {right : Operand} (h : right.IsRegular) :
    ∃ token, Lexes (operand right).toList [token] ∧ operand? token = some right.eraseSpans := by
  cases right with
  | column c => exact ⟨.identifier c.name, lexes_identifier c.name, rfl⟩
  | literal value =>
    obtain ⟨token, hLexes, hValue⟩ := exists_literal h
    refine ⟨token, hLexes, ?_⟩
    cases token with
    | identifier => cases hValue
    | string | number | word | symbol =>
      simp only [operand?, hValue, Option.map_some, Operand.eraseSpans]

/-- Values with commas between them are read back. -/
theorem exists_values {values : List Literal} (hNonempty : values ≠ [])
    (h : ∀ value ∈ values, value.IsRegular) :
    ∃ tokens, Lexes (", ".intercalate (values.map literal)).toList tokens ∧
      IsValues tokens values := by
  induction values with
  | nil => exact absurd rfl hNonempty
  | cons value values ih =>
    rw [List.forall_mem_cons] at h
    obtain ⟨token, hToken, hValue⟩ := exists_literal h.1
    cases values with
    | nil =>
      refine ⟨[token], ?_, .last hValue⟩
      rw [List.map_cons, List.map_nil, String.intercalate_singleton]
      exact hToken
    | cons next values =>
      obtain ⟨tokens, hTokens, hValues⟩ := ih (List.cons_ne_nil _ _) h.2
      refine ⟨token :: .symbol "," :: tokens, ?_, .next hValue hValues⟩
      rw [List.map_cons, List.map_cons, String.intercalate_cons_cons, String.toList_append,
        String.toList_append, List.append_assoc]
      exact hToken.append (.punctuation (.inr (.inr rfl)) hTokens.blank) rfl

/-- A condition is read as a predicate. -/
theorem exists_predicate {c : Condition} (h : c.IsRegular) :
    ∃ tokens, Lexes (condition c).toList tokens ∧ IsPredicate tokens c.eraseSpans := by
  cases c with
  | comparison left operator right =>
    obtain ⟨token, hToken, hRight⟩ := exists_operand h
    refine ⟨_, ?_, .comparison left.name (comparison?_symbol operator) hRight⟩
    simp only [condition, String.toList_append, List.append_assoc]
    exact (lexes_identifier left.name).append
      ((lexes_symbol operator).append hToken.blank rfl).blank rfl
  | nullCheck column negated =>
    have hNull := (lexes_word "NULL" rfl).blank
    have hNotNull := ((lexes_word "NOT" rfl).append hNull rfl).blank
    refine ⟨_, ?_, .nullCheck column.name negated⟩
    rw [condition, String.toList_append]
    apply (lexes_identifier column.name).append _ _
    · cases negated with
      | false => exact ((lexes_word "IS" rfl).append hNull rfl).blank
      | true => exact ((lexes_word "IS" rfl).append hNotNull rfl).blank
    · cases negated <;> rfl
  | membership column negated values =>
    obtain ⟨tokens, hTokens, hValues⟩ := exists_values h.1 h.2
    refine ⟨_, ?_, .membership column.name negated hValues⟩
    have hList := ((lexes_word "IN" rfl).append hTokens.parentheses.blank rfl).blank
    simp only [condition, String.toList_append, List.append_assoc]
    apply (lexes_identifier column.name).append _ _
    · cases negated with
      | false => exact hList
      | true => exact ((lexes_word "NOT" rfl).append hList rfl).blank
    · cases negated <;> rfl

end Predicates

/-- Whether a text is read as a phrase for a filter, up to the association of chains. -/
def Spells (phrase : Phrase) (text : List Char) (f : Filter) : Prop :=
  ∃ tokens g, Lexes text tokens ∧ Derives phrase tokens g ∧ g.Reassociates f

namespace Spells

variable {text first second : List Char} {f g : Filter}

theorem chain {c : Connective} (h : Spells (operandPhrase c) text f) : Spells (.chain c) text f := by
  obtain ⟨tokens, read, hLexes, hDerives, hReassociates⟩ := h
  refine ⟨tokens, read, hLexes, ?_, hReassociates⟩
  rw [← List.append_nil tokens]
  exact .chain hDerives (.done c read)

/-- A disjunction between parentheses is a factor. -/
theorem parentheses (h : Spells (.chain .or) text f) : Spells .factor ('(' :: text ++ [')']) f := by
  obtain ⟨tokens, read, hLexes, hDerives, hReassociates⟩ := h
  exact ⟨_, read, hLexes.parentheses, .parentheses hDerives, hReassociates⟩

/-- A factor behind `NOT` is a negation. -/
theorem negation (h : Spells .factor text f) :
    Spells .factor ("NOT".toList ++ ' ' :: text) (.not f .none) := by
  obtain ⟨tokens, read, hLexes, hDerives, hReassociates⟩ := h
  exact ⟨_, _, (lexes_word "NOT" rfl).append hLexes.blank rfl, .negation hDerives,
    .not .none .none hReassociates⟩

private theorem lexes_connective (c : Connective) :
    Lexes (connectiveText c).toList [connectiveWord c] := by
  cases c with
  | and => exact lexes_word "AND" rfl
  | or => exact lexes_word "OR" rfl

/-- Two chains of a connective with its word between them are a chain. -/
theorem join {c : Connective} (hFirst : Spells (.chain c) first f)
    (hSecond : Spells (.chain c) second g) :
    Spells (.chain c) (first ++ ' ' :: ((connectiveText c).toList ++ ' ' :: second))
      (c.join f g .none) := by
  obtain ⟨firstTokens, firstRead, hFirstLexes, hFirstDerives, hFirstReassociates⟩ := hFirst
  obtain ⟨secondTokens, secondRead, hSecondLexes, hSecondDerives, hSecondReassociates⟩ := hSecond
  obtain ⟨read, hDerives, hReassociates⟩ := hFirstDerives.append hSecondDerives
  have hWord := ((lexes_connective c).append hSecondLexes.blank rfl).blank
  exact ⟨_, read, hFirstLexes.append hWord rfl, hDerives,
    hReassociates.trans (.join c .none .none hFirstReassociates hSecondReassociates)⟩

end Spells

/-- The phrase that a filter is written as. -/
def phraseOf : Filter → Phrase
  | .and _ _ _ => .chain .and
  | .or _ _ _ => .chain .or
  | _ => .factor

theorem fragmentsText_filter (f : Filter) :
    rendering.fragmentsText [.filter f] = f.toPostgres.toList :=
  List.append_nil _

theorem toPostgres_condition (c : Condition) (span : Span) :
    (Filter.condition c span).toPostgres.toList = (condition c).toList :=
  (rendering.toList_render _).trans (List.append_nil _)

theorem toPostgres_and (left right : Filter) (span : Span) :
    (Filter.and left right span).toPostgres.toList =
      rendering.fragmentsText (conjunct left) ++ ' ' :: ((connectiveText .and).toList ++
        ' ' :: rendering.fragmentsText (conjunct right)) := by
  have hText := rendering.toList_render (.and left right span)
  change _ = rendering.fragmentsText (conjunct left ++ .text " AND " :: conjunct right) at hText
  rw [Rendering.fragmentsText, List.flatMap_append, List.flatMap_cons] at hText
  exact hText

theorem toPostgres_or (left right : Filter) (span : Span) :
    (Filter.or left right span).toPostgres.toList =
      left.toPostgres.toList ++ ' ' :: ((connectiveText .or).toList ++
        ' ' :: right.toPostgres.toList) := by
  have hText := rendering.toList_render (.or left right span)
  change _ = left.toPostgres.toList ++ (" OR ".toList ++ rendering.fragmentsText [.filter right])
    at hText
  rw [fragmentsText_filter] at hText
  exact hText

theorem toPostgres_not (operand : Filter) (span : Span) :
    (Filter.not operand span).toPostgres.toList =
      "NOT".toList ++ ' ' :: operand.toPostgres.toList := by
  have hText := rendering.toList_render (.not operand span)
  change _ = "NOT ".toList ++ rendering.fragmentsText [.filter operand] at hText
  rw [fragmentsText_filter] at hText
  exact hText

/-- An operand of a conjunction is written as a part of a conjunction. -/
theorem spells_conjunct {f : Filter} (h : Spells (phraseOf f) f.toPostgres.toList f.eraseSpans) :
    Spells (.chain .and) (rendering.fragmentsText (conjunct f)) f.eraseSpans := by
  cases f with
  | condition | not =>
    change Spells _ (rendering.fragmentsText [.filter _]) _
    rw [fragmentsText_filter]
    exact Spells.chain h
  | and =>
    change Spells _ (rendering.fragmentsText [.filter _]) _
    rw [fragmentsText_filter]
    exact h
  | or => exact Spells.chain h.parentheses

/-- An operand of a disjunction is written as a part of a disjunction. -/
theorem spells_disjunct {f : Filter} (h : Spells (phraseOf f) f.toPostgres.toList f.eraseSpans) :
    Spells (.chain .or) f.toPostgres.toList f.eraseSpans := by
  cases f with
  | condition | not => exact Spells.chain (Spells.chain h)
  | and => exact Spells.chain h
  | or => exact h

private theorem spells_condition {c : Condition} (h : c.IsRegular) (span : Span) :
    Spells .factor (Filter.condition c span).toPostgres.toList
      (Filter.condition c span).eraseSpans := by
  obtain ⟨tokens, hLexes, hPredicate⟩ := exists_predicate h
  rw [toPostgres_condition]
  exact ⟨tokens, _, hLexes, .predicate hPredicate, .refl _⟩

/-- The text of a filter whose negations cover no chain is read as the filter. -/
theorem spells_of_negatesNoChain {f : Filter} (hConditions : ∀ c ∈ f.conditions, c.IsRegular)
    (hNegates : f.negatesNoChain = true) :
    Spells (phraseOf f) f.toPostgres.toList f.eraseSpans := by
  induction f with
  | condition c => exact spells_condition (hConditions c (List.mem_singleton_self c)) _
  | and left right _ ihLeft ihRight =>
    rw [Filter.negatesNoChain, Bool.and_eq_true] at hNegates
    rw [Filter.conditions, List.forall_mem_append] at hConditions
    rw [toPostgres_and]
    exact (spells_conjunct (ihLeft hConditions.1 hNegates.1)).join
      (spells_conjunct (ihRight hConditions.2 hNegates.2))
  | or left right _ ihLeft ihRight =>
    rw [Filter.negatesNoChain, Bool.and_eq_true] at hNegates
    rw [Filter.conditions, List.forall_mem_append] at hConditions
    rw [toPostgres_or]
    exact (spells_disjunct (ihLeft hConditions.1 hNegates.1)).join
      (spells_disjunct (ihRight hConditions.2 hNegates.2))
  | not operand _ ih =>
    rw [Filter.negatesNoChain, Bool.and_eq_true, Bool.not_eq_true'] at hNegates
    have hOperand := ih hConditions hNegates.2
    have hFactor : phraseOf operand = .factor := by
      cases operand with
      | condition | not => rfl
      | and | or => cases hNegates.1
    rw [hFactor] at hOperand
    rw [toPostgres_not]
    exact hOperand.negation

/-- The text of a regular filter is read as the filter. -/
theorem spells_toPostgres {f : Filter} (h : f.IsRegular) :
    Spells (phraseOf f) f.toPostgres.toList f.eraseSpans :=
  spells_of_negatesNoChain h.of_mem_conditions h.negatesNoChain

end RowFilter.Postgres

namespace RowFilter.Filter

open Postgres

/-- The condition that a filter is written as has exactly one reading, which
covers the whole text. It has the conditions of the filter in their order and
under every assignment the truth value of the filter. -/
theorem toPostgres_reading {source : String} {filter : Filter}
    (h : parse source = .ok filter) :
    ∃ read, Reads filter.toPostgres read ∧
      (∀ other, Reads filter.toPostgres other → other = read) ∧
      read.conditions = filter.conditions.map Condition.eraseSpans ∧
      ∀ v, read.eval v = filter.eval v := by
  obtain ⟨tokens, read, hLexes, hDerives, hReassociates⟩ :=
    spells_disjunct (spells_toPostgres (isRegular_of_parse h))
  have hReads : Reads filter.toPostgres read := ⟨tokens, hLexes.tokens?_eq, hDerives⟩
  refine ⟨read, hReads, fun other hOther => hOther.unique hReads, ?_, fun v => ?_⟩
  · rw [hReassociates.conditions_eq, conditions_eraseSpans]
  · rw [eval, hReassociates.evalAt_eq, evalAt_eraseSpans, eval]

/-- A conjunction of a disjunction and a negation. -/
theorem toPostgres_reading_mixed :
    ∃ filter read, parse "(a IS NULL OR b < 2) AND NOT c = 'x'" = .ok filter ∧
      Reads filter.toPostgres read ∧
      read.conditions = [.nullCheck ⟨"a", .none⟩ false,
        .comparison ⟨"b", .none⟩ .less (.literal (.integer 2)),
        .comparison ⟨"c", .none⟩ .equal (.literal (.text "x"))] := by
  have hConditions : (parse "(a IS NULL OR b < 2) AND NOT c = 'x'").toOption.map
      (fun filter => filter.conditions.map Condition.eraseSpans) = some [.nullCheck ⟨"a", .none⟩ false,
        .comparison ⟨"b", .none⟩ .less (.literal (.integer 2)),
        .comparison ⟨"c", .none⟩ .equal (.literal (.text "x"))] := by
    decide +kernel
  cases hParse : parse "(a IS NULL OR b < 2) AND NOT c = 'x'" with
  | error =>
    rw [hParse] at hConditions
    cases hConditions
  | ok filter =>
    rw [hParse] at hConditions
    obtain ⟨read, hReads, -, hRead, -⟩ := toPostgres_reading hParse
    exact ⟨filter, read, rfl, hReads, hRead.trans (Option.some.inj hConditions)⟩

end RowFilter.Filter
