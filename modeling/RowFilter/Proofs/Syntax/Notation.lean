import RowFilter.Proofs.Filter.Polish
import RowFilter.Proofs.Syntax.Built
import RowFilter.Proofs.Syntax.Words

/-! The Polish notation of filters that were read from texts. Their names are
names of the grammar and never end early, so two such filters are told apart
by their notations unless a text ends early. -/

namespace RowFilter

open Grammar

section Plain

variable {length : Nat} {node : Node Rule}

private theorem IsLeaf.isPlain (h : IsLeaf length .name node) : (Column.ofNode node).IsPlain :=
  angle_not_mem_name (takes_rule.2 (h.takes_text rfl))

private theorem OperandOf.isPlain {right : Operand} (h : OperandOf length right node) :
    right.IsPlain := by
  cases h with
  | literal => trivial
  | column hName => exact hName.isPlain

private theorem ConditionOf.isPlain {c : Condition} (h : ConditionOf length c node) :
    c.IsPlain := by
  cases h with
  | comparison hColumn _ _ hRight => exact ⟨hColumn.isPlain, hRight.isPlain⟩
  | isNull hColumn | isNotNull hColumn | inList hColumn | notInList hColumn =>
    exact hColumn.isPlain

theorem Filter.isPlain_join {connective : Connective} {left right : Filter} {span : Span} :
    (connective.join left right span).IsPlain ↔ left.IsPlain ∧ right.IsPlain := by
  cases connective <;> exact List.forall_mem_append

private theorem BuiltFrom.isPlain {f : Filter} {nodes : List (Node Rule)}
    (h : BuiltFrom length f nodes) : f.IsPlain := by
  induction h with
  | condition hNode | negation _ hNode => exact List.forall_mem_singleton.2 hNode.isPlain
  | group _ _ _ ih | conjunction _ ih => exact ih
  | join _ _ _ ihLeft ihRight => exact Filter.isPlain_join.2 ⟨ihLeft, ihRight⟩

end Plain

namespace Filter

/-- The names of a filter that a text spells are plain. -/
theorem isPlain_of_parse {source : String} {filter : Filter} (h : parse source = .ok filter) :
    filter.IsPlain := by
  obtain ⟨_, _, _, -, -, -, hBuilt⟩ := exists_builtFrom_of_parse h
  exact hBuilt.isPlain

/-- Filters that texts spell are the same up to spans if and only if their Polish notations are,
if their own texts end where Polish notation seems to end them. -/
theorem toPolish_eq_iff {source other : String} {f g : Filter} (hF : parse source = .ok f)
    (hG : parse other = .ok g) (hDelimitedF : f.IsDelimited) (hDelimitedG : g.IsDelimited) :
    f.toPolish = g.toPolish ↔ f.eraseSpans = g.eraseSpans := by
  constructor
  · intro h
    have hReadableF := isReadable_of_mem_conditions (isRegular_of_parse hF) (isPlain_of_parse hF)
      hDelimitedF
    have hReadableG := isReadable_of_mem_conditions (isRegular_of_parse hG) (isPlain_of_parse hG)
      hDelimitedG
    have hText : f.toPolish.toList ++ [] = g.toPolish.toList ++ [] := by rw [h]
    exact (toPolish_append_inj hReadableF hReadableG hText).1
  · intro h
    rw [← toPolish_eraseSpans f, h, toPolish_eraseSpans]

/-- Quotes, blanks and parentheses in the source do not show, and a quote in a text does no harm. -/
theorem toPolish_eq_iff_quotes :
    ∃ f g, parse "a = \"it's\" AND b IN ('x', 1)" = .ok f ∧
      parse "(a=\"it's\")and(b in (\"x\",1))" = .ok g ∧
      f.IsDelimited ∧ g.IsDelimited ∧
      (f.toPolish = g.toPolish ↔ f.eraseSpans = g.eraseSpans) ∧ f.toPolish = g.toPolish := by
  let erased : Filter :=
    .and (.condition (.comparison ⟨"a", .none⟩ .equal (.literal (.text "it's"))) .none)
      (.condition (.membership ⟨"b", .none⟩ false [.text "x", .integer 1]) .none) .none
  have hDelimited : erased.IsDelimited := by decide +kernel
  obtain ⟨f, hF, hErasedF⟩ : ∃ read, parse "a = \"it's\" AND b IN ('x', 1)" = .ok read ∧
      read.eraseSpans = erased := exists_parse_of_eraseSpans (by decide +kernel)
  obtain ⟨g, hG, hErasedG⟩ : ∃ read, parse "(a=\"it's\")and(b in (\"x\",1))" = .ok read ∧
      read.eraseSpans = erased := exists_parse_of_eraseSpans (by decide +kernel)
  have hDelimitedF : f.IsDelimited := isDelimited_eraseSpans.1 (hErasedF ▸ hDelimited)
  have hDelimitedG : g.IsDelimited := isDelimited_eraseSpans.1 (hErasedG ▸ hDelimited)
  have hIff := toPolish_eq_iff hF hG hDelimitedF hDelimitedG
  exact ⟨f, g, hF, hG, hDelimitedF, hDelimitedG, hIff, hIff.2 (hErasedF.trans hErasedG.symm)⟩

/-- A text that seems to end early hides another filter: a text of one filter ends with what looks
like a disjunction, and a text of the other one with what looks like a negation. -/
theorem toPolish_ambiguous :
    ∃ f g, parse "a = 'x' AND NOT b = \"y') (OR (= Column<d> 1) (= Column<c> 'z\"" = .ok f ∧
      parse "a = \"x') (NOT (= Column<b> 'y\" AND (d = 1 OR c = 'z')" = .ok g ∧
      f.toPolish = g.toPolish ∧ f.eraseSpans ≠ g.eraseSpans := by
  obtain ⟨f, hF, hErasedF⟩ : ∃ read,
      parse "a = 'x' AND NOT b = \"y') (OR (= Column<d> 1) (= Column<c> 'z\"" = .ok read ∧
      read.eraseSpans = .and
        (.condition (.comparison ⟨"a", .none⟩ .equal (.literal (.text "x"))) .none)
        (.not (.condition (.comparison ⟨"b", .none⟩ .equal
          (.literal (.text "y') (OR (= Column<d> 1) (= Column<c> 'z"))) .none) .none) .none :=
    exists_parse_of_eraseSpans (by decide +kernel)
  obtain ⟨g, hG, hErasedG⟩ : ∃ read,
      parse "a = \"x') (NOT (= Column<b> 'y\" AND (d = 1 OR c = 'z')" = .ok read ∧
      read.eraseSpans = .and
        (.condition (.comparison ⟨"a", .none⟩ .equal
          (.literal (.text "x') (NOT (= Column<b> 'y"))) .none)
        (.or (.condition (.comparison ⟨"d", .none⟩ .equal (.literal (.integer 1))) .none)
          (.condition (.comparison ⟨"c", .none⟩ .equal (.literal (.text "z"))) .none) .none)
        .none :=
    exists_parse_of_eraseSpans (by decide +kernel)
  refine ⟨f, g, hF, hG, ?_, ?_⟩
  · rw [← toPolish_eraseSpans f, ← toPolish_eraseSpans g, hErasedF, hErasedG]
    apply String.toList_inj.1
    simp only [toList_toPolish, polishOperands]
    decide +kernel
  · rw [hErasedF, hErasedG]
    simp

end Filter

end RowFilter
