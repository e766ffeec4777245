import RowFilter.Proofs.Syntax.Completion

/-! What an error of the grammar suggests. Reading collects the rules that failed
at the farthest place, drops those that failed earlier and puts a rule in the
place of what failed in it. Each rule that is left was called for at that
place, so a filter can go on there with a text for it. -/

namespace RowFilter

open Grammar Text

/-- An error of the grammar points at a place of the text where some rule is expected, and each rule
that is expected there may follow what stands before that place. -/
theorem SyntaxError.expected_mayFollow {text : List Char} {expected : Expected Rule}
    (h : filterGrammar.parse .filter text = .error expected) :
    ∃ before after rules found, text = before ++ after ∧
      (ofExpected text expected).offset = byteLength before ∧
      (ofExpected text expected).fault = .unexpected rules found ∧ rules ≠ [] ∧
      ∀ rule ∈ rules, rule.MayFollow before := by
  have hRules (rule : Rule) : rule ∈ filterGrammar.rules := by cases rule <;> decide
  obtain ⟨hNonempty, hNoted⟩ := accounted_of_parse filterGrammar_ranked hRules rfl h
  have hFollows (rule : Rule) (hRule : rule ∈ expected.rules) : ∃ before after,
      text = before ++ after ∧ expected.offset = byteLength before ∧ rule.MayFollow before := by
    obtain ⟨before, after, hText, hOffset, hRuleNoted⟩ := hNoted rule hRule
    obtain ⟨passed, hPassed, hRuleFollows⟩ := mayFollow_of_isNoted hRuleNoted
    obtain rfl := List.append_cancel_right (hPassed.symm.trans hText)
    exact ⟨passed, after, hText, hOffset, hRuleFollows⟩
  obtain ⟨first, others, hFirst⟩ := List.exists_cons_of_ne_nil hNonempty
  obtain ⟨before, after, hText, hOffset, -⟩ := hFollows first (hFirst ▸ List.mem_cons_self)
  refine ⟨before, after, expected.rules, _, hText, hOffset, rfl, hNonempty, fun rule hRule => ?_⟩
  obtain ⟨other, rest, hOther, hOtherOffset, hRuleFollows⟩ := hFollows rule hRule
  -- All rules that are expected failed at the same place.
  obtain ⟨rfl, -⟩ := append_inj_of_byteLength (hText.symm.trans hOther)
    (hOffset.symm.trans hOtherOffset)
  exact hRuleFollows

/-- A connective or the end may stand where a name behind a condition is refused. -/
theorem SyntaxError.expected_mayFollow_word :
    ∃ expected, filterGrammar.parse .filter "a = 1 b".toList = .error expected ∧
      expected = ⟨6, [.endOfInput, .keywordAnd, .keywordOr]⟩ ∧
      ∃ before after rules found, "a = 1 b".toList = before ++ after ∧
        (ofExpected "a = 1 b".toList expected).offset = byteLength before ∧
        (ofExpected "a = 1 b".toList expected).fault = .unexpected rules found ∧ rules ≠ [] ∧
        ∀ rule ∈ rules, rule.MayFollow before := by
  have hExpected : (match filterGrammar.parse .filter "a = 1 b".toList with
      | .ok _ => none
      | .error expected => some expected) =
        some ⟨6, [.endOfInput, .keywordAnd, .keywordOr]⟩ := by decide +kernel
  cases h : filterGrammar.parse .filter "a = 1 b".toList with
  | ok =>
    rw [h] at hExpected
    cases hExpected
  | error expected =>
    rw [h] at hExpected
    exact ⟨expected, rfl, Option.some.inj hExpected, expected_mayFollow h⟩

end RowFilter
