import RowFilter.Proofs.Filter.Spans
import RowFilter.Proofs.Postgres.Token

/-! The conditions of SQL. A disjunction joins conjunctions, a conjunction
joins predicates, negations and conditions in parentheses, and a negation
covers one of these. A text has at most one reading. -/

namespace RowFilter.Postgres

/-- The value of a literal. A number is an integer if it is written as one that 64 bits hold. -/
def literal? : Token → Option Literal
  | .number numeral => Literal.ofNumeral? numeral
  | .string text => some (.text text)
  | _ => none

def operand? : Token → Option Operand
  | .identifier name => some (.column ⟨name, .none⟩)
  | token => (literal? token).map .literal

def comparison? : String → Option Comparison
  | "=" => some .equal
  | "<>" | "!=" => some .notEqual
  | ">" => some .greater
  | "<" => some .less
  | ">=" => some .greaterOrEqual
  | "<=" => some .lessOrEqual
  | _ => none

/-- Reading a symbol undoes writing it. -/
theorem comparison?_symbol (operator : Comparison) :
    comparison? (symbol operator) = some operator := by
  cases operator <;> rfl

/-- Values with commas between them. -/
inductive IsValues : List Token → List Literal → Prop where
  | last {token : Token} {value : Literal} (h : literal? token = some value) :
      IsValues [token] [value]
  | next {token : Token} {value : Literal} {tokens : List Token} {values : List Literal}
      (h : literal? token = some value) (hValues : IsValues tokens values) :
      IsValues (token :: .symbol "," :: tokens) (value :: values)

/-- The word that turns a predicate into its opposite. -/
def negationWord (negated : Bool) : List Token :=
  if negated then [.word "NOT"] else []

inductive IsPredicate : List Token → Condition → Prop where
  | comparison (name : String) {symbol : String} {operator : Comparison} {token : Token}
      {right : Operand} (hOperator : comparison? symbol = some operator)
      (hRight : operand? token = some right) :
      IsPredicate [.identifier name, .symbol symbol, token]
        (.comparison ⟨name, .none⟩ operator right)
  | nullCheck (name : String) (negated : Bool) :
      IsPredicate (.identifier name :: .word "IS" :: (negationWord negated ++ [.word "NULL"]))
        (.nullCheck ⟨name, .none⟩ negated)
  | membership (name : String) (negated : Bool) {tokens : List Token} {values : List Literal}
      (h : IsValues tokens values) :
      IsPredicate (.identifier name :: (negationWord negated ++
        .word "IN" :: .symbol "(" :: (tokens ++ [.symbol ")"])))
        (.membership ⟨name, .none⟩ negated values)

/-- The parts of a condition. What follows an operand of a chain depends on the
filter that the operands so far make. -/
inductive Phrase where
  | factor
  | chain (connective : Connective)
  | more (connective : Connective) (left : Filter)

def connectiveText : Connective → String
  | .and => "AND"
  | .or => "OR"

def connectiveWord (c : Connective) : Token := .word (connectiveText c)

/-- What a connective joins. -/
def operandPhrase : Connective → Phrase
  | .and => .factor
  | .or => .chain .and

/-- The filters that tokens spell. Chains lean to the left. -/
inductive Derives : Phrase → List Token → Filter → Prop where
  | predicate {tokens : List Token} {c : Condition} (h : IsPredicate tokens c) :
      Derives .factor tokens (.condition c .none)
  | negation {tokens : List Token} {f : Filter} (h : Derives .factor tokens f) :
      Derives .factor (.word "NOT" :: tokens) (.not f .none)
  | parentheses {tokens : List Token} {f : Filter} (h : Derives (.chain .or) tokens f) :
      Derives .factor (.symbol "(" :: tokens ++ [.symbol ")"]) f
  | chain {c : Connective} {first second : List Token} {left f : Filter}
      (hFirst : Derives (operandPhrase c) first left) (hMore : Derives (.more c left) second f) :
      Derives (.chain c) (first ++ second) f
  | done (c : Connective) (f : Filter) : Derives (.more c f) [] f
  | more {c : Connective} {first second : List Token} {left right f : Filter}
      (hNext : Derives (operandPhrase c) first right)
      (hMore : Derives (.more c (c.join left right .none)) second f) :
      Derives (.more c left) (connectiveWord c :: (first ++ second)) f

/-- Whether a whole text spells a filter. -/
def Reads (text : String) (f : Filter) : Prop :=
  ∃ tokens, tokens? text.toList = some tokens ∧ Derives (.chain .or) tokens f

/-- Values are read in one way. -/
theorem IsValues.unique {tokens others rest otherRest : List Token} {values otherValues : List Literal}
    (h : IsValues tokens values) (hOther : IsValues others otherValues)
    (hEq : tokens ++ .symbol ")" :: rest = others ++ .symbol ")" :: otherRest) :
    values = otherValues ∧ rest = otherRest := by
  induction h generalizing others otherValues with
  | last h =>
    cases hOther with
    | last hOther => simp_all
    | next => simp at hEq
  | next h _ ih =>
    cases hOther with
    | last hOther => simp at hEq
    | next hOther hOthers =>
      simp only [List.cons_append, List.cons.injEq] at hEq
      obtain ⟨rfl, -, hEq⟩ := hEq
      obtain ⟨rfl, hRest⟩ := ih hOthers hEq
      exact ⟨congrArg (· :: _) (Option.some.inj (h.symm.trans hOther)), hRest⟩

/-- Every predicate begins with a column. -/
theorem IsPredicate.eq_cons {tokens : List Token} {c : Condition} (h : IsPredicate tokens c) :
    ∃ name behind, tokens = .identifier name :: behind := by
  cases h <;> exact ⟨_, _, rfl⟩

/-- A predicate is read in one way. -/
theorem IsPredicate.unique {tokens others rest otherRest : List Token} {c other : Condition}
    (h : IsPredicate tokens c) (hOther : IsPredicate others other)
    (hEq : tokens ++ rest = others ++ otherRest) : c = other ∧ rest = otherRest := by
  cases h with
  | comparison name hOperator hRight =>
    cases hOther with
    | comparison otherName hOtherOperator hOtherRight => simp_all
    | nullCheck => simp at hEq
    | membership _ negated => cases negated <;> simp [negationWord] at hEq
  | nullCheck name negated =>
    cases hOther with
    | comparison => simp at hEq
    | nullCheck otherName otherNegated =>
      cases negated <;> cases otherNegated <;> simp_all [negationWord]
    | membership _ otherNegated =>
      cases negated <;> cases otherNegated <;> simp [negationWord] at hEq
  | membership name negated hValues =>
    cases hOther with
    | comparison => cases negated <;> simp [negationWord] at hEq
    | nullCheck _ otherNegated =>
      cases negated <;> cases otherNegated <;> simp [negationWord] at hEq
    | membership otherName otherNegated hOtherValues =>
      simp only [List.cons_append, List.append_assoc, List.cons.injEq, Token.identifier.injEq]
        at hEq
      obtain ⟨rfl, hEq⟩ := hEq
      have hNegated : negated = otherNegated := by
        cases negated <;> cases otherNegated <;> simp [negationWord] at hEq ⊢
      subst hNegated
      simp only [List.append_cancel_left_eq, List.cons.injEq, true_and, List.nil_append] at hEq
      obtain ⟨rfl, hRest⟩ := hValues.unique hOtherValues hEq
      exact ⟨rfl, hRest⟩

/-- The words that would go on with a chain or with its last operand. -/
def chainWords : Connective → List Token
  | .and => [connectiveWord .and]
  | .or => [connectiveWord .or, connectiveWord .and]

private theorem connectiveWord_mem (c : Connective) : connectiveWord c ∈ chainWords c := by
  cases c <;> exact List.mem_cons_self

/-- The words that would go on with a phrase. -/
def Phrase.continuations : Phrase → List Token
  | factor => []
  | chain c => chainWords c
  | more c _ => chainWords c

/-- Whether a phrase ends before some tokens. -/
def EndsAt (phrase : Phrase) (rest : List Token) : Prop :=
  ∀ token ∈ rest.head?, token ∉ phrase.continuations

theorem endsAt_nil (phrase : Phrase) : EndsAt phrase [] := nofun

private theorem Derives.endsAt_operand {c : Connective} {left f : Filter}
    {second rest : List Token} (h : Derives (.more c left) second f)
    (hRest : EndsAt (.chain c) rest) : EndsAt (operandPhrase c) (second ++ rest) := by
  cases c with
  | and => exact fun _ _ => List.not_mem_nil
  | or =>
    cases h with
    | done => exact fun token hToken hMem => hRest token hToken (List.mem_cons_of_mem _ hMem)
    | more =>
      intro token hToken
      cases hToken
      decide

/-- Tokens have at most one phrase of a kind at their beginning. -/
theorem Derives.unique {phrase : Phrase} {tokens others rest otherRest : List Token}
    {f other : Filter} (h : Derives phrase tokens f) (hOther : Derives phrase others other)
    (hEq : tokens ++ rest = others ++ otherRest) (hEnds : EndsAt phrase rest)
    (hOtherEnds : EndsAt phrase otherRest) : f = other ∧ rest = otherRest := by
  induction h generalizing others other rest otherRest with
  | predicate h =>
    cases hOther with
    | predicate hOther =>
      obtain ⟨rfl, hRest⟩ := h.unique hOther hEq
      exact ⟨rfl, hRest⟩
    | negation | parentheses =>
      obtain ⟨name, behind, rfl⟩ := h.eq_cons
      simp at hEq
  | negation _ ih =>
    cases hOther with
    | predicate hOther =>
      obtain ⟨name, behind, rfl⟩ := hOther.eq_cons
      simp at hEq
    | negation hOther =>
      obtain ⟨rfl, hRest⟩ := ih hOther (List.cons.inj hEq).2 hEnds hOtherEnds
      exact ⟨rfl, hRest⟩
    | parentheses => simp at hEq
  | parentheses _ ih =>
    cases hOther with
    | predicate hOther =>
      obtain ⟨name, behind, rfl⟩ := hOther.eq_cons
      simp at hEq
    | negation => simp at hEq
    | parentheses hOther =>
      have hClosed (behind : List Token) : EndsAt (.chain .or) (.symbol ")" :: behind) := by
        intro token hToken
        cases hToken
        decide
      simp only [List.cons_append, List.append_assoc, List.cons.injEq, true_and] at hEq
      obtain ⟨rfl, hRest⟩ := ih hOther hEq (hClosed _) (hClosed _)
      exact ⟨rfl, (List.cons.inj hRest).2⟩
  | chain _ hMore ihFirst ihMore =>
    cases hOther with
    | chain hOtherFirst hOtherMore =>
      rw [List.append_assoc, List.append_assoc] at hEq
      obtain ⟨rfl, hRest⟩ := ihFirst hOtherFirst hEq (hMore.endsAt_operand hEnds)
        (hOtherMore.endsAt_operand hOtherEnds)
      exact ihMore hOtherMore hRest hEnds hOtherEnds
  | done c =>
    cases hOther with
    | done => exact ⟨rfl, hEq⟩
    | more =>
      rw [List.nil_append] at hEq
      subst hEq
      exact absurd (connectiveWord_mem c) (hEnds _ rfl)
  | more _ hMore ihNext ihMore =>
    cases hOther with
    | done =>
      rw [List.nil_append] at hEq
      subst hEq
      exact absurd (connectiveWord_mem _) (hOtherEnds _ rfl)
    | more hOtherNext hOtherMore =>
      simp only [List.cons_append, List.append_assoc, List.cons.injEq, true_and] at hEq
      obtain ⟨rfl, hRest⟩ := ihNext hOtherNext hEq (hMore.endsAt_operand hEnds)
        (hOtherMore.endsAt_operand hOtherEnds)
      exact ihMore hOtherMore hRest hEnds hOtherEnds

/-- A text has at most one reading. -/
theorem Reads.unique {text : String} {f other : Filter} (h : Reads text f)
    (hOther : Reads text other) : f = other := by
  obtain ⟨tokens, hTokens, hDerives⟩ := h
  obtain ⟨others, hOthers, hOtherDerives⟩ := hOther
  obtain rfl := Option.some.inj (hTokens.symm.trans hOthers)
  exact (hDerives.unique hOtherDerives rfl (endsAt_nil _) (endsAt_nil _)).1

end RowFilter.Postgres
