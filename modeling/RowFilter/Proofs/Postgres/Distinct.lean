import RowFilter.Proofs.Postgres.Reading

/-! Which filters the text of a PostgreSQL condition tells apart. Filters with
one text differ in the association of their chains only, if no negation covers
a chain. A list without values has no reading, so the readings compared are
those of the filters with one more value in front of each list. -/

namespace RowFilter

open Postgres

/-- Whether all floating-point numbers of a condition are finite. Lists may be empty. -/
def Condition.IsFinite : Condition → Prop
  | comparison _ _ right => right.IsRegular
  | nullCheck _ _ => True
  | membership _ _ values => ∀ value ∈ values, value.IsRegular

/-- A condition with another list of values, if it has one. -/
def Condition.mapValues (change : List Literal → List Literal) : Condition → Condition
  | membership column negated values => membership column negated (change values)
  | c => c

namespace Filter

def IsFinite (filter : Filter) : Prop :=
  ∀ c ∈ filter.conditions, c.IsFinite

def mapValues (change : List Literal → List Literal) : Filter → Filter
  | condition c span => condition (c.mapValues change) span
  | and left right span => and (left.mapValues change) (right.mapValues change) span
  | or left right span => or (left.mapValues change) (right.mapValues change) span
  | not operand span => not (operand.mapValues change) span

variable {change back : List Literal → List Literal}

@[simp] theorem mapValues_join (connective : Connective) (left right : Filter) (span : Span) :
    (connective.join left right span).mapValues change =
      connective.join (left.mapValues change) (right.mapValues change) span := by
  cases connective <;> rfl

/-- A change of the values that can be taken back loses nothing. -/
theorem mapValues_mapValues (h : ∀ values, back (change values) = values) (filter : Filter) :
    (filter.mapValues change).mapValues back = filter := by
  induction filter with
  | condition c =>
    cases c with
    | membership => simp [mapValues, Condition.mapValues, h]
    | comparison | nullCheck => rfl
  | and _ _ _ ihLeft ihRight | or _ _ _ ihLeft ihRight => simp only [mapValues, ihLeft, ihRight]
  | not _ _ ih => simp only [mapValues, ih]

theorem mapValues_eraseSpans (filter : Filter) :
    (filter.mapValues change).eraseSpans = filter.eraseSpans.mapValues change := by
  induction filter with
  | condition c => cases c <;> rfl
  | and _ _ _ ihLeft ihRight | or _ _ _ ihLeft ihRight =>
    simp only [mapValues, eraseSpans, ihLeft, ihRight]
  | not _ _ ih => simp only [mapValues, eraseSpans, ih]

theorem Reassociates.mapValues {first second : Filter} (h : first.Reassociates second) :
    (first.mapValues change).Reassociates (second.mapValues change) := by
  induction h with
  | refl => exact .refl _
  | symm _ ih => exact ih.symm
  | trans _ _ ih ihNext => exact ih.trans ihNext
  | assoc =>
    simp only [mapValues_join]
    exact .assoc ..
  | join _ _ _ _ _ ihLeft ihRight =>
    simp only [mapValues_join]
    exact .join _ _ _ ihLeft ihRight
  | not _ _ _ ih => exact .not _ _ ih

private theorem isChain_mapValues (filter : Filter) :
    (filter.mapValues change).isChain = filter.isChain := by
  cases filter <;> rfl

private theorem negatesNoChain_mapValues (filter : Filter) :
    (filter.mapValues change).negatesNoChain = filter.negatesNoChain := by
  induction filter with
  | condition => rfl
  | and _ _ _ ihLeft ihRight | or _ _ _ ihLeft ihRight =>
    simp only [mapValues, negatesNoChain, ihLeft, ihRight]
  | not _ _ ih => simp only [mapValues, negatesNoChain, isChain_mapValues, ih]

end Filter

namespace Postgres

open Text

/-- Tokens with an empty text put in front of the values of each list. -/
inductive AddsValue : List Token → List Token → Prop where
  | nil : AddsValue [] []
  | empty {tokens longer : List Token} (h : AddsValue tokens longer) :
      AddsValue (.word "IN" :: .symbol "(" :: .symbol ")" :: tokens)
        (.word "IN" :: .symbol "(" :: .string "" :: .symbol ")" :: longer)
  | list {token : Token} {tokens longer : List Token} (hToken : token ≠ .symbol ")")
      (h : AddsValue (token :: tokens) longer) :
      AddsValue (.word "IN" :: .symbol "(" :: token :: tokens)
        (.word "IN" :: .symbol "(" :: .string "" :: .symbol "," :: longer)
  | other {token : Token} {tokens longer : List Token} (hToken : token ≠ .word "IN")
      (h : AddsValue tokens longer) : AddsValue (token :: tokens) (token :: longer)

namespace AddsValue

variable {tokens others longer otherLonger : List Token}

/-- Tokens are widened in one way. -/
theorem unique (h : AddsValue tokens longer) (hOther : AddsValue tokens otherLonger) :
    longer = otherLonger := by
  induction h generalizing otherLonger with
  | nil => cases hOther; rfl
  | empty _ ih =>
    cases hOther with
    | empty h => rw [ih h]
    | list hToken => exact absurd rfl hToken
    | other hToken => exact absurd rfl hToken
  | list hClosed _ ih =>
    cases hOther with
    | empty => exact absurd rfl hClosed
    | list _ h => rw [ih h]
    | other hToken => exact absurd rfl hToken
  | other hToken _ ih =>
    cases hOther with
    | empty | list => exact absurd rfl hToken
    | other _ h => rw [ih h]

theorem append (h : AddsValue tokens longer) (hOther : AddsValue others otherLonger) :
    AddsValue (tokens ++ others) (longer ++ otherLonger) := by
  induction h with
  | nil => exact hOther
  | empty _ ih => exact .empty ih
  | list hToken _ ih => exact .list hToken ih
  | other hToken _ ih => exact .other hToken ih

/-- Nothing is added without a list. -/
theorem same (h : .word "IN" ∉ tokens) : AddsValue tokens tokens := by
  induction tokens with
  | nil => exact .nil
  | cons token tokens ih =>
    rw [List.mem_cons, not_or] at h
    exact .other (Ne.symm h.1) (ih h.2)

end AddsValue

/-- Whether two texts are read as the same tokens but for one more value in each list. -/
def Widens (text wider : List Char) : Prop :=
  ∃ tokens longer, Lexes text tokens ∧ Lexes wider longer ∧ AddsValue tokens longer

namespace Widens

variable {text wider other otherWider : List Char} {tokens : List Token}

theorem append (h : Widens text wider) (hOther : Widens other otherWider)
    (hStart : StopsAt (!isDelimiter ·) other) (hWiderStart : StopsAt (!isDelimiter ·) otherWider) :
    Widens (text ++ other) (wider ++ otherWider) := by
  obtain ⟨tokens, longer, hText, hWider, hAdds⟩ := h
  obtain ⟨others, otherLonger, hOther, hOtherWider, hOtherAdds⟩ := hOther
  exact ⟨_, _, hText.append hOther hStart, hWider.append hOtherWider hWiderStart,
    hAdds.append hOtherAdds⟩

theorem blank (h : Widens text wider) : Widens (' ' :: text) (' ' :: wider) := by
  obtain ⟨tokens, longer, hText, hWider, hAdds⟩ := h
  exact ⟨_, _, hText.blank, hWider.blank, hAdds⟩

theorem punctuation {c : Char} (hMark : c = '(' ∨ c = ')' ∨ c = ',') (h : Widens text wider) :
    Widens (c :: text) (c :: wider) := by
  obtain ⟨tokens, longer, hText, hWider, hAdds⟩ := h
  exact ⟨_, _, .punctuation hMark hText, .punctuation hMark hWider, .other (by simp) hAdds⟩

theorem parentheses (h : Widens text wider) :
    Widens ('(' :: text ++ [')']) ('(' :: wider ++ [')']) :=
  punctuation (.inl rfl)
    (h.append (punctuation (.inr (.inl rfl)) ⟨_, _, .nil, .nil, .nil⟩) rfl rfl)

theorem same (h : Lexes text tokens) (hList : .word "IN" ∉ tokens) : Widens text text :=
  ⟨_, _, h, h, .same hList⟩

theorem word (word : String) (h : isCapital word = true) (hList : word ≠ "IN") :
    Widens word.toList word.toList :=
  same (lexes_word word h) (by simpa using Ne.symm hList)

theorem identifier (name : String) :
    Widens (identifier name).toList (identifier name).toList :=
  same (lexes_identifier name) (by simp)

end Widens

/-- Values hold no words, and they begin with one. -/
theorem IsValues.adds {tokens : List Token} {values : List Literal} (h : IsValues tokens values) :
    .word "IN" ∉ tokens ∧ ∃ token rest, tokens = token :: rest ∧ token ≠ .symbol ")" := by
  have hWord {token : Token} {value : Literal} (h : literal? token = some value) :
      .word "IN" ≠ token ∧ token ≠ .symbol ")" := by
    constructor <;> rintro rfl <;> cases h
  induction h with
  | last h => exact ⟨by simpa using (hWord h).1, _, _, rfl, (hWord h).2⟩
  | next h _ ih =>
    refine ⟨?_, _, _, rfl, (hWord h).2⟩
    simpa using ⟨(hWord h).1, ih.1⟩

def listText (values : List Literal) : List Char :=
  "IN".toList ++ ' ' :: ('(' :: (", ".intercalate (values.map literal)).toList ++ [')'])

/-- A list with one more value in front. -/
theorem widens_list {values : List Literal} (h : ∀ value ∈ values, value.IsRegular) :
    Widens (listText values) (listText (.text "" :: values)) := by
  have hList {text : List Char} {tokens : List Token} (hText : Lexes text tokens) :
      Lexes ("IN".toList ++ ' ' :: ('(' :: text ++ [')']))
        (.word "IN" :: .symbol "(" :: (tokens ++ [.symbol ")"])) :=
    (lexes_word "IN" rfl).append hText.parentheses.blank rfl
  cases values with
  | nil =>
    have hEmpty : Lexes (", ".intercalate ([.text ""].map literal)).toList [.string ""] :=
      lexes_string ""
    exact ⟨_, _, hList .nil, hList hEmpty, .empty .nil⟩
  | cons value values =>
    obtain ⟨tokens, hTokens, hValues⟩ := exists_values (List.cons_ne_nil value values) h
    obtain ⟨hWord, token, rest, rfl, hToken⟩ := hValues.adds
    have hLonger : Lexes (", ".intercalate ((.text "" :: value :: values).map literal)).toList
        (.string "" :: .symbol "," :: token :: rest) := by
      rw [List.map_cons, List.map_cons, String.intercalate_cons_cons, String.toList_append,
        String.toList_append, List.append_assoc]
      exact (lexes_string "").append (.punctuation (.inr (.inr rfl)) hTokens.blank) rfl
    refine ⟨_, _, hList hTokens, hList hLonger, ?_⟩
    exact .list hToken ((AddsValue.same hWord).append (.other (by simp) .nil))

/-- A condition without a list has no word that begins one. -/
theorem IsPredicate.not_mem {tokens : List Token} {c : Condition} (h : IsPredicate tokens c)
    (hList : ∀ column negated values, c ≠ .membership column negated values) :
    .word "IN" ∉ tokens := by
  cases h with
  | comparison _ _ hRight =>
    simp only [List.mem_cons, List.not_mem_nil, reduceCtorEq, or_false, false_or]
    rintro rfl
    cases hRight
  | nullCheck _ negated => cases negated <;> simp [negationWord]
  | membership => exact absurd rfl (hList _ _ _)

/-- A condition is widened by an empty text among its values. -/
theorem widens_condition {c : Condition} (h : c.IsFinite) :
    Widens (condition c).toList (condition (c.mapValues (.text "" :: ·))).toList := by
  cases c with
  | comparison left operator right =>
    obtain ⟨tokens, hTokens, hPredicate⟩ :=
      exists_predicate (c := .comparison left operator right) h
    exact .same hTokens (hPredicate.not_mem nofun)
  | nullCheck column negated =>
    obtain ⟨tokens, hTokens, hPredicate⟩ :=
      exists_predicate (c := .nullCheck column negated) trivial
    exact .same hTokens (hPredicate.not_mem nofun)
  | membership column negated values =>
    simp only [Condition.mapValues, condition, String.toList_append, List.append_assoc]
    have hList := (widens_list h).blank
    apply (Widens.identifier column.name).append
    · cases negated with
      | false => exact hList
      | true => exact ((Widens.word "NOT" rfl (by decide)).append hList rfl rfl).blank
    · cases negated <;> rfl
    · cases negated <;> rfl

variable {change : List Literal → List Literal}

theorem widens_conjunct {f : Filter}
    (h : Widens f.toPostgres.toList (f.mapValues change).toPostgres.toList) :
    Widens (rendering.fragmentsText (conjunct f))
      (rendering.fragmentsText (conjunct (f.mapValues change))) := by
  cases f with
  | or => exact h.parentheses
  | condition | and | not =>
    change Widens (rendering.fragmentsText [.filter _]) (rendering.fragmentsText [.filter _])
    rw [fragmentsText_filter, fragmentsText_filter]
    exact h

theorem widens_join {c : Connective} {left right otherLeft otherRight : List Char}
    (hLeft : Widens left otherLeft) (hRight : Widens right otherRight) :
    Widens (left ++ ' ' :: ((connectiveText c).toList ++ ' ' :: right))
      (otherLeft ++ ' ' :: ((connectiveText c).toList ++ ' ' :: otherRight)) := by
  have hWord : Widens (connectiveText c).toList (connectiveText c).toList := by
    cases c with
    | and => exact .word "AND" rfl (by decide)
    | or => exact .word "OR" rfl (by decide)
  exact hLeft.append (hWord.append hRight.blank rfl rfl).blank rfl rfl

/-- A filter and the one with a further value in each list are written alike elsewhere. -/
theorem widens_toPostgres {f : Filter} (h : f.IsFinite) :
    Widens f.toPostgres.toList (f.mapValues (.text "" :: ·)).toPostgres.toList := by
  induction f with
  | condition c span =>
    rw [Filter.mapValues, toPostgres_condition, toPostgres_condition]
    exact widens_condition (h c (List.mem_singleton_self c))
  | and left right span ihLeft ihRight =>
    obtain ⟨hLeft, hRight⟩ := List.forall_mem_append.1 h
    rw [Filter.mapValues, toPostgres_and, toPostgres_and]
    exact widens_join (widens_conjunct (ihLeft hLeft)) (widens_conjunct (ihRight hRight))
  | or left right span ihLeft ihRight =>
    obtain ⟨hLeft, hRight⟩ := List.forall_mem_append.1 h
    rw [Filter.mapValues, toPostgres_or, toPostgres_or]
    exact widens_join (ihLeft hLeft) (ihRight hRight)
  | not operand span ih =>
    rw [Filter.mapValues, toPostgres_not, toPostgres_not]
    exact (Widens.word "NOT" rfl (by decide)).append (ih h).blank rfl rfl

/-- Filters with one text still have one text when each list has a further value. -/
theorem reads_of_toPostgres_eq {f g : Filter} (hF : f.IsFinite) (hG : g.IsFinite)
    (h : f.toPostgres = g.toPostgres) {tokens others : List Token}
    (hTokens : Lexes (f.mapValues (.text "" :: ·)).toPostgres.toList tokens)
    (hOthers : Lexes (g.mapValues (.text "" :: ·)).toPostgres.toList others) : tokens = others := by
  obtain ⟨first, longer, hFirst, hLonger, hAdds⟩ := widens_toPostgres hF
  obtain ⟨second, otherLonger, hSecond, hOtherLonger, hOtherAdds⟩ := widens_toPostgres hG
  have hSame {text : List Char} {tokens others : List Token} (hTokens : Lexes text tokens)
      (hOthers : Lexes text others) : tokens = others :=
    Option.some.inj (hTokens.tokens?_eq.symm.trans hOthers.tokens?_eq)
  rw [h] at hFirst
  obtain rfl := hSame hFirst hSecond
  obtain rfl := hAdds.unique hOtherAdds
  exact (hSame hTokens hLonger).trans (hSame hOtherLonger hOthers)

/-! The text of a filter does not depend on spans and on the association of its chains. -/

/-- The text of a filter as an operand of a connective. -/
def operandText : Connective → Filter → List Char
  | .and, f => rendering.fragmentsText (conjunct f)
  | .or, f => f.toPostgres.toList

theorem toPostgres_join (c : Connective) (left right : Filter) (span : Span) :
    (c.join left right span).toPostgres.toList =
      operandText c left ++ ' ' :: ((connectiveText c).toList ++ ' ' :: operandText c right) := by
  cases c with
  | and => exact toPostgres_and left right span
  | or => exact toPostgres_or left right span

/-- The text of a chain as an operand, in parentheses if a connective binds more strongly. -/
def enclosedText : Connective → Connective → List Char → List Char
  | .and, .or, text => '(' :: text ++ [')']
  | _, _, text => text

theorem operandText_join (outer c : Connective) (left right : Filter) (span : Span) :
    operandText outer (c.join left right span) =
      enclosedText outer c (c.join left right span).toPostgres.toList := by
  cases outer <;> cases c
  case and.and => exact fragmentsText_filter _
  all_goals rfl

theorem operandText_not (outer : Connective) (operand : Filter) (span : Span) :
    operandText outer (.not operand span) = "NOT".toList ++ ' ' :: operandText .or operand := by
  have hText := toPostgres_not operand span
  cases outer with
  | and => exact (fragmentsText_filter _).trans hText
  | or => exact hText

theorem operandText_condition (outer : Connective) (c : Condition) (span : Span) :
    operandText outer (.condition c span) = (condition c).toList := by
  have hText := toPostgres_condition c span
  cases outer with
  | and => exact (fragmentsText_filter _).trans hText
  | or => exact hText

theorem operandText_eraseSpans (outer : Connective) (f : Filter) :
    operandText outer f.eraseSpans = operandText outer f := by
  have hJoin (c : Connective) {left right : Filter} (span : Span)
      (hLeft : ∀ outer, operandText outer left.eraseSpans = operandText outer left)
      (hRight : ∀ outer, operandText outer right.eraseSpans = operandText outer right)
      (outer : Connective) :
      operandText outer (c.join left right span).eraseSpans =
        operandText outer (c.join left right span) := by
    rw [Filter.eraseSpans_join, operandText_join, operandText_join, toPostgres_join,
      toPostgres_join, hLeft, hRight]
  induction f generalizing outer with
  | condition c span =>
    have hText : condition c.eraseSpans = condition c := by
      cases c with
      | comparison left operator right => cases right <;> rfl
      | nullCheck | membership => rfl
    rw [Filter.eraseSpans, operandText_condition, operandText_condition, hText]
  | and left right span ihLeft ihRight => exact hJoin .and span ihLeft ihRight outer
  | or left right span ihLeft ihRight => exact hJoin .or span ihLeft ihRight outer
  | not operand span ih => rw [Filter.eraseSpans, operandText_not, operandText_not, ih]

/-- Operands that differ in their association are written alike. -/
theorem operandText_of_reassociates {f g : Filter} (h : f.Reassociates g) (outer : Connective) :
    operandText outer f = operandText outer g := by
  induction h generalizing outer with
  | refl => rfl
  | symm _ ih => exact (ih outer).symm
  | trans _ _ ih ihNext => exact (ih outer).trans (ihNext outer)
  | assoc c =>
    have hSame (left right : Filter) (span : Span) :
        operandText c (c.join left right span) = (c.join left right span).toPostgres.toList := by
      rw [operandText_join]
      cases c <;> rfl
    rw [operandText_join, operandText_join, toPostgres_join, toPostgres_join, hSame, hSame,
      toPostgres_join, toPostgres_join]
    simp only [List.append_assoc, List.cons_append]
  | join c _ _ _ _ ihLeft ihRight =>
    rw [operandText_join, operandText_join, toPostgres_join, toPostgres_join, ihLeft, ihRight]
  | not _ _ _ ih => rw [operandText_not, operandText_not, ih]

end Postgres

namespace Filter

open Postgres

theorem isRegular_mapValues {f : Filter} (h : f.IsFinite) :
    ∀ c ∈ (f.mapValues (.text "" :: ·)).conditions, c.IsRegular := by
  induction f with
  | condition c =>
    have hFinite := h c (List.mem_singleton_self c)
    refine List.forall_mem_singleton.2 ?_
    cases c with
    | comparison => exact hFinite
    | nullCheck => trivial
    | membership => exact ⟨List.cons_ne_nil _ _, List.forall_mem_cons.2 ⟨trivial, hFinite⟩⟩
  | and _ _ _ ihLeft ihRight | or _ _ _ ihLeft ihRight =>
    obtain ⟨hLeft, hRight⟩ := List.forall_mem_append.1 h
    exact List.forall_mem_append.2 ⟨ihLeft hLeft, ihRight hRight⟩
  | not _ _ ih => exact ih h

/-- The text of a filter with finite numbers and with negations that cover no chain tells it apart
from all other such filters, up to spans and the association of chains. -/
theorem toPostgres_eq_iff {f g : Filter} (hF : f.IsFinite) (hG : g.IsFinite)
    (hFirst : f.negatesNoChain = true) (hSecond : g.negatesNoChain = true) :
    f.toPostgres = g.toPostgres ↔ f.eraseSpans.Reassociates g.eraseSpans := by
  constructor
  · intro h
    obtain ⟨tokens, read, hLexes, hDerives, hRead⟩ := spells_disjunct
      (spells_of_negatesNoChain (isRegular_mapValues hF)
        ((negatesNoChain_mapValues f).trans hFirst))
    obtain ⟨others, otherRead, hOtherLexes, hOtherDerives, hOtherRead⟩ := spells_disjunct
      (spells_of_negatesNoChain (isRegular_mapValues hG)
        ((negatesNoChain_mapValues g).trans hSecond))
    obtain rfl := reads_of_toPostgres_eq hF hG h hLexes hOtherLexes
    obtain ⟨rfl, -⟩ := hDerives.unique hOtherDerives rfl (endsAt_nil _) (endsAt_nil _)
    have hMapped := @Reassociates.mapValues List.tail _ _ (hRead.symm.trans hOtherRead)
    rw [mapValues_eraseSpans, mapValues_eraseSpans, mapValues_mapValues fun _ => rfl,
      mapValues_mapValues fun _ => rfl] at hMapped
    exact hMapped
  · intro h
    have hText := operandText_of_reassociates h .or
    rw [operandText_eraseSpans, operandText_eraseSpans] at hText
    exact String.toList_inj.1 hText

/-- An empty list, a doubled negation and a disjunction inside a conjunction, associated in two
ways. -/
theorem toPostgres_eq_iff_chain :
    ∃ f g : Filter, f ≠ g ∧ f.IsFinite ∧ g.IsFinite ∧ f.negatesNoChain = true ∧
      g.negatesNoChain = true ∧ f.toPostgres = g.toPostgres := by
  let null : Filter := .condition (.nullCheck ⟨"a", .none⟩ false) .none
  let list : Filter := .not (.not (.condition (.membership ⟨"b", .none⟩ true []) .none) .none) .none
  let either : Filter := .or null list .none
  have hFinite : ∀ c ∈ null.conditions ++ list.conditions ++ either.conditions, c.IsFinite := by
    simp [null, list, either, conditions, Condition.IsFinite]
  have hF : (and (and null list .none) either .none).IsFinite := hFinite
  have hG : (and null (and list either .none) .none).IsFinite := by
    intro c hc
    exact hFinite c (by simpa [conditions] using hc)
  exact ⟨_, _, by decide, hF, hG, rfl, rfl,
    (toPostgres_eq_iff hF hG rfl rfl).2 (.assoc .and null list either .none .none .none .none)⟩

/-- A negation of a conjunction is written like the conjunction of a negation. -/
theorem toPostgres_ambiguous :
    ∃ f g : Filter, f.IsFinite ∧ g.IsFinite ∧ f.toPostgres = g.toPostgres ∧
      ¬f.eraseSpans.Reassociates g.eraseSpans := by
  let a : Filter := .condition (.comparison ⟨"a", .none⟩ .equal (.literal (.integer 1))) .none
  let b : Filter := .condition (.comparison ⟨"b", .none⟩ .equal (.literal (.integer 2))) .none
  have hFinite : ∀ c ∈ a.conditions ++ b.conditions, c.IsFinite := by
    simp [a, b, conditions, Condition.IsFinite, Operand.IsRegular, Literal.IsRegular]
  refine ⟨.not (.and a b .none) .none, .and (.not a .none) b .none, hFinite, hFinite, ?_, ?_⟩
  · apply String.toList_inj.1
    have hConjunction := toPostgres_join .and a b .none
    have hNegation := toPostgres_join .and (.not a .none) b .none
    have hOperand : operandText .or a = operandText .and a :=
      (operandText_condition .or _ _).trans (operandText_condition .and _ _).symm
    rw [operandText_not, hOperand, List.append_assoc, List.cons_append] at hNegation
    exact (toPostgres_not _ _).trans
      ((congrArg ("NOT".toList ++ ' ' :: ·) hConjunction).trans hNegation.symm)
  · intro h
    have hTruth := h.evalAt_eq (fun _ => .false) 0
    cases hTruth

end Filter

end RowFilter
