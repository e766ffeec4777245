import RowFilter.Proofs.Syntax.Values

/-! Keywords in front of more text. Each is read where it stands, and fails
where another word begins. -/

namespace RowFilter

open Grammar Text

variable {length : Nat} {text taken behind rest : List Char}

/-- One blank is all of a gap if no further one follows. -/
theorem takes_gaps (h : StopsAt isGap rest) :
    filterGrammar.Takes length (.many1 (.rule .gap)) (' ' :: rest) [' '] rest := by
  have hBlank : filterGrammar.Takes length (.rule .gap) (' ' :: rest) [' '] rest :=
    takes_rule.2 (takes_oneOf_iff.2 ⟨' ', by decide, rfl, rfl⟩)
  have hNoMore : filterGrammar.Takes length (.many (.rule .gap)) rest [] rest :=
    takes_many.2 (.inl ⟨fails_rule.2 (fails_class.2 h), rfl, rfl⟩)
  exact takes_seq.2 ⟨_, _, _, hBlank, hNoMore, rfl⟩

theorem takes_wholeWord {word : String}
    (h : takeAll? (word.toList.map sameLetter) text = some (taken, rest))
    (hBehind : StopsAt isNameChar rest) :
    filterGrammar.Takes length (Rule.wholeWord word) text taken rest :=
  takes_seq.2 ⟨taken, rest, [], takes_word.2 h, takes_unless_nameChar.2 ⟨hBehind, rfl, rfl⟩,
    (List.append_nil taken).symm⟩

/-- A word and a blank in front of what an expression takes. -/
theorem takes_word_blank (word : String) (spelled : List Char) {expr : Expr Rule}
    {middle others : List Char}
    (h : takeAll? (word.toList.map sameLetter) text = some (spelled, ' ' :: middle))
    (hMiddle : StopsAt isGap middle) (hOthers : filterGrammar.Takes length expr middle others rest) :
    filterGrammar.Takes length (.seq (.word word) (.seq (.many1 (.rule .gap)) expr)) text
      (spelled ++ ' ' :: others) rest :=
  takes_seq.2 ⟨spelled, ' ' :: middle, _, takes_word.2 h,
    takes_seq.2 ⟨[' '], middle, others, takes_gaps hMiddle, hOthers, rfl⟩, rfl⟩

namespace Connective

def word : Connective → List Char
  | and => "AND".toList
  | or => "OR".toList

end Connective

section Keywords

variable (hBehind : StopsAt (!isDelimiter ·) behind) (hGap : IsBehindGap behind rest)

include hBehind hGap

/-- The word of a connective is read in front of a delimiter. -/
theorem accepts_connective (connective : Connective) :
    Accepts filterGrammar length (.rule connective.keyword) .initial (connective.word ++ behind)
      rest (IsWord connective.keyword connective.word) := by
  have hEnd : StopsAt isNameChar behind := stopsAt_of_delimiter hBehind rfl
  cases connective with
  | and => exact accepts_atomic (takes_rule.2 (takes_wholeWord rfl hEnd)) rfl hGap
  | or => exact accepts_atomic (takes_rule.2 (takes_wholeWord rfl hEnd)) rfl hGap

theorem accepts_keywordNot :
    Accepts filterGrammar length (.rule .keywordNot) .initial ("NOT".toList ++ behind) rest
      (IsWord .keywordNot "NOT".toList) :=
  accepts_atomic (takes_rule.2 (takes_wholeWord rfl (stopsAt_of_delimiter hBehind rfl))) rfl hGap

theorem accepts_keywordIn :
    Accepts filterGrammar length (.rule .keywordIn) .initial ("IN".toList ++ behind) rest
      (IsWord .keywordIn "IN".toList) :=
  accepts_atomic (takes_rule.2 (takes_wholeWord rfl (stopsAt_of_delimiter hBehind rfl))) rfl hGap

theorem accepts_keywordNotIn :
    Accepts filterGrammar length (.rule .keywordNotIn) .initial ("NOT IN".toList ++ behind) rest
      (IsWord .keywordNotIn "NOT IN".toList) := by
  have hIn : filterGrammar.Takes length (Rule.wholeWord "in") ("IN".toList ++ behind) "IN".toList
      behind := takes_wholeWord rfl (stopsAt_of_delimiter hBehind rfl)
  have hNotIn : filterGrammar.Takes length Rule.keywordNotIn.body ("NOT IN".toList ++ behind)
      "NOT IN".toList behind := takes_word_blank "not" "NOT".toList rfl rfl hIn
  exact accepts_atomic (takes_rule.2 hNotIn) rfl hGap

theorem accepts_isNull :
    Accepts filterGrammar length (.rule .isNull) .initial ("IS NULL".toList ++ behind) rest
      (IsWord .isNull "IS NULL".toList) := by
  have hNull : filterGrammar.Takes length (Rule.wholeWord "null") ("NULL".toList ++ behind)
      "NULL".toList behind := takes_wholeWord rfl (stopsAt_of_delimiter hBehind rfl)
  have hIsNull : filterGrammar.Takes length Rule.isNull.body ("IS NULL".toList ++ behind)
      "IS NULL".toList behind := takes_word_blank "is" "IS".toList rfl rfl hNull
  exact accepts_atomic (takes_rule.2 hIsNull) rfl hGap

theorem accepts_isNotNull :
    Accepts filterGrammar length (.rule .isNotNull) .initial ("IS NOT NULL".toList ++ behind) rest
      (IsWord .isNotNull "IS NOT NULL".toList) := by
  have hNull : filterGrammar.Takes length (Rule.wholeWord "null") ("NULL".toList ++ behind)
      "NULL".toList behind := takes_wholeWord rfl (stopsAt_of_delimiter hBehind rfl)
  have hNotNull : filterGrammar.Takes length
      (.seq (.word "not") (.seq (.many1 (.rule .gap)) (Rule.wholeWord "null")))
      ("NOT NULL".toList ++ behind) "NOT NULL".toList behind :=
    takes_word_blank "not" "NOT".toList rfl rfl hNull
  have hIsNotNull : filterGrammar.Takes length Rule.isNotNull.body ("IS NOT NULL".toList ++ behind)
      "IS NOT NULL".toList behind := takes_word_blank "is" "IS".toList rfl rfl hNotNull
  exact accepts_atomic (takes_rule.2 hIsNotNull) rfl hGap

end Keywords

/-- A rule that begins with a word fails where another one stands. -/
theorem refuses_word {rule : Rule} {word : String} {others : Expr Rule}
    (hBody : rule.body = .seq (.word word) others) (hKind : rule.kind = .atomic)
    (h : takeAll? (word.toList.map sameLetter) text = none) {mode : Mode} :
    Refuses filterGrammar length (.rule rule) mode text := by
  refine .of_fails (fails_rule.2 ?_) hKind
  change filterGrammar.Fails length rule.body text
  rw [hBody]
  exact fails_seq.2 (.inl (fails_word.2 h))

/-- The word `NULL` is not the word `NOT`. -/
theorem refuses_isNotNull {mode : Mode} :
    Refuses filterGrammar length (.rule .isNotNull) mode ("IS NULL".toList ++ behind) := by
  refine .of_fails (fails_rule.2 ?_) rfl
  refine fails_seq.2 (.inr ⟨['I', 'S'], _, takes_word.2 rfl, ?_⟩)
  exact fails_seq.2 (.inr ⟨[' '], _, takes_gaps rfl, fails_seq.2 (.inl (fails_word.2 rfl))⟩)

end RowFilter
