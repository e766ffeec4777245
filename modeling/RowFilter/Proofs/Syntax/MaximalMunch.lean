import RowFilter.Proofs.Syntax.Lexemes
import RowFilter.Proofs.Syntax.Seams

/-! Numbers and names at any place of an input. Both are the longest text of
their form, a number only where no character of a name follows it and a name
only where neither a number nor a reserved word is read. -/

namespace RowFilter

open Grammar Text

/-- What a rule takes of the text behind some other text, as part of an input of both. -/
def takenAt? (rule : Rule) (mode : Mode) (expected : Expected Rule) (before text : List Char) :
    Option (List Char) :=
  let bound := (before ++ text).length + 1
  let start := (Cursor.ofText (before ++ text)).past before
  (filterGrammar.readRule bound (bound * filterGrammar.rules.length) rule mode start
    expected).result.map fun (_, stop) => start.textTo stop

/-- The longest beginning of a text that has some form, and what stands behind it. -/
structure IsMaximalMunch (HasForm : List Char → Prop) (text taken rest : List Char) : Prop where
  text_eq : text = taken ++ rest
  hasForm : HasForm taken
  length_le : ∀ other, other <+: text → HasForm other → other.length ≤ taken.length

/-- A sign or none, digits with or without a point among them or at either end, and a complete
exponent or none. -/
def IsNumberText (text : List Char) : Prop := ∃ spelling : Spelling, text = spelling.text

/-- Runs of characters of names with single dots between them. -/
def IsDottedText (text : List Char) : Prop :=
  ∃ words, words ≠ [] ∧ (∀ word ∈ words, IsNameWord word) ∧ text = ['.'].intercalate words

variable {text taken rest : List Char}

/-- Both ways to say what a dotted text is agree. -/
theorem isDottedText_iff : IsDottedText text ↔ isDotted text = true := by
  rw [isDotted_iff]
  constructor
  · rintro ⟨words, hNonempty, hWords, rfl⟩
    obtain ⟨word, words, rfl⟩ := List.exists_cons_of_ne_nil hNonempty
    exact ⟨word, words, hWords, intercalate_dot word words⟩
  · rintro ⟨word, words, hWords, rfl⟩
    exact ⟨word :: words, List.cons_ne_nil _ _, hWords, (intercalate_dot word words).symm⟩

theorem isMaximalMunch_iff {HasForm : List Char → Prop} {p : List Char → Bool}
    (h : ∀ other, HasForm other ↔ p other = true) :
    IsMaximalMunch HasForm text taken rest ↔ IsLongest p text taken ∧ text = taken ++ rest := by
  constructor
  · intro hMunch
    refine ⟨⟨(h taken).1 hMunch.hasForm, ⟨rest, hMunch.text_eq.symm⟩, ?_⟩, hMunch.text_eq⟩
    exact fun other hPrefix hOther => hMunch.length_le other hPrefix ((h other).2 hOther)
  · rintro ⟨hLongest, hText⟩
    refine ⟨hText, (h taken).2 hLongest.satisfies, ?_⟩
    exact fun other hPrefix hOther => hLongest.length_le other hPrefix ((h other).1 hOther)

/-- The last word of a dotted text can go on. -/
theorem isDotted_append_nameChar {c : Char} (h : isDotted taken = true)
    (hChar : isNameChar c = true) : isDotted (taken ++ [c]) = true := by
  have hLonger {word : List Char} (hWord : IsNameWord word) : IsNameWord (word ++ [c]) :=
    ⟨by simp, fun d hD => by
      rcases List.mem_append.1 hD with hD | hD
      · exact hWord.all_nameChar d hD
      · rwa [List.mem_singleton.1 hD]⟩
  obtain ⟨word, words, hWords, rfl⟩ := isDotted_iff.1 h
  obtain ⟨hWord, hOthers⟩ := List.forall_mem_cons.1 hWords
  rcases List.eq_nil_or_concat words with rfl | ⟨words, last, rfl⟩
  · exact isDotted_iff.2 ⟨word ++ [c], [], by simpa using hLonger hWord, by simp [furtherWords]⟩
  · rw [List.concat_eq_append] at hOthers ⊢
    refine isDotted_iff.2 ⟨word, words ++ [last ++ [c]], ?_, ?_⟩
    · simp only [List.mem_cons, List.mem_append, List.not_mem_nil, or_false]
      rintro other (rfl | hOther | rfl)
      · exact hWord
      · exact hOthers other (List.mem_append_left _ hOther)
      · exact hLonger (hOthers last (by simp))
    · simp [furtherWords]

/-- A dotted text can go on with a dot and another word. -/
theorem isDotted_append_dot {c : Char} (h : isDotted taken = true) (hChar : isNameChar c = true) :
    isDotted (taken ++ ['.', c]) = true := by
  obtain ⟨word, words, hWords, rfl⟩ := isDotted_iff.1 h
  refine isDotted_iff.2 ⟨word, words ++ [[c]], ?_, ?_⟩
  · rw [← List.cons_append]
    intro other hOther
    rcases List.mem_append.1 hOther with hOther | hOther
    · exact hWords other hOther
    · rw [List.mem_singleton.1 hOther]
      exact ⟨List.cons_ne_nil _ _, by simpa using hChar⟩
  · simp [furtherWords]

/-- The longest dotted text ends where no word goes on. -/
theorem endsName_of_isLongest (h : IsLongest isDotted (taken ++ rest) taken) : EndsName rest := by
  have hNotLonger (behind others : List Char) (hBehind : rest = behind ++ others)
      (hDotted : isDotted (taken ++ behind) = true) : behind.length = 0 := by
    have hPrefix : taken ++ behind <+: taken ++ rest :=
      (List.prefix_append_right_inj taken).2 ⟨others, hBehind.symm⟩
    have hLe := h.length_le _ hPrefix hDotted
    rw [List.length_append] at hLe
    omega
  refine ⟨?_, fun {behind} hDot => ?_⟩
  · cases rest with
    | nil => trivial
    | cons c others =>
      refine Bool.eq_false_iff.2 fun hChar => ?_
      cases hNotLonger [c] others rfl (isDotted_append_nameChar h.satisfies hChar)
  · cases behind with
    | nil => trivial
    | cons c others =>
      refine Bool.eq_false_iff.2 fun hChar => ?_
      cases hNotLonger ['.', c] others hDot (isDotted_append_dot h.satisfies hChar)

variable {before : List Char} {mode : Mode} {expected : Expected Rule}

private theorem taken_ofBody (shows : Bool) (rule : Rule) (outcome : Outcome Rule) :
    (Outcome.ofBody shows rule outcome).map (Piece.textOf ·.1) =
      outcome.map (Piece.textOf ·.1) := by
  cases shows <;> cases outcome <;> simp [Outcome.ofBody]

/-- What a rule takes at a place is what the grammar reads there. -/
theorem exists_reads_takenAt? (rule : Rule) (mode : Mode) (expected : Expected Rule)
    (before text : List Char) :
    ∃ outcome, filterGrammar.Reads (before ++ text).length (.once (.rule rule)) mode text outcome ∧
      takenAt? rule mode expected before text = outcome.map (Piece.textOf ·.1) := by
  let start := (Cursor.ofText (before ++ text)).past before
  have hRest : start.rest = text := Cursor.rest_past rfl
  have hLength : start.rest.length ≤ (before ++ text).length := by simp [hRest]
  obtain ⟨outcome, hReads, hResult, -⟩ := readRule_agrees filterGrammar_ranked
    (Nat.lt_succ_self _) _ rule mode start expected ((Cursor.StandsIn.ofText _).past rfl)
    (hasRoom_rule filterGrammar_ranked rule hLength)
  have hTaken : takenAt? rule mode expected before text =
      (outcome.locate start).map fun (_, stop) => start.textTo stop := by
    rw [← hResult]
    rfl
  refine ⟨outcome, hRest ▸ hReads, ?_⟩
  rw [hTaken]
  cases outcome with
  | none => rfl
  | some success => exact congrArg some (Cursor.textTo_past hReads.text_eq)

/-- What an atomic rule takes at a place depends on the text there only. -/
theorem takenAt?_eq_some (rule : Rule) (hKind : rule.kind = .atomic) :
    takenAt? rule mode expected before text = some taken ↔
      ∃ rest, filterGrammar.Takes (before ++ text).length (.rule rule) text taken rest := by
  obtain ⟨outcome, hReads, hTaken⟩ := exists_reads_takenAt? rule mode expected before text
  have hInside : (filterGrammar.kind rule).inside mode = .atomic :=
    congrArg (fun kind : Kind => kind.inside mode) hKind
  obtain ⟨body, hBody, rfl⟩ : ∃ body, filterGrammar.Reads (before ++ text).length
      (.once (filterGrammar.body rule)) .atomic text body ∧
        outcome = .ofBody (filterGrammar.shows rule mode) rule body := by
    cases hReads with
    | rule hBody => exact ⟨_, hInside ▸ hBody, rfl⟩
  simp only [takes_rule]
  rw [hTaken, taken_ofBody]
  constructor
  · intro h
    obtain ⟨⟨pieces, rest⟩, rfl, rfl⟩ := Option.map_eq_some_iff.1 h
    exact ⟨rest, hBody.takes⟩
  · rintro ⟨rest, hTakes⟩
    rw [hBody.unique hTakes, Option.map_some, Piece.textOf_chars]

theorem takenAt?_eq_none (rule : Rule) (hKind : rule.kind = .atomic)
    (hPlain : isPlainRule rule = true) :
    takenAt? rule mode expected before text = none ↔
      filterGrammar.Fails (before ++ text).length (.rule rule) text := by
  rw [Option.eq_none_iff_forall_ne_some]
  simp only [ne_eq, takenAt?_eq_some rule hKind]
  constructor
  · intro h
    refine (takes_or_fails hPlain _ text).resolve_left fun ⟨taken, rest, hTakes⟩ => ?_
    exact h taken ⟨rest, hTakes⟩
  · rintro h taken ⟨rest, hTakes⟩
    cases h.unique hTakes

/-- At each place of each input, the rule of numbers takes the longest number
that is spelled there if no character of a name follows it, and else nothing.
The rule of names takes something only where the rule of numbers does not and
where no reserved word stands. It takes the longest dotted text there, which no
character of a name follows. -/
theorem takenAt?_maximalMunch (before text : List Char) (mode : Mode) (expected : Expected Rule) :
    (∀ taken, takenAt? .number mode expected before text = some taken ↔
      ∃ rest, IsMaximalMunch IsNumberText text taken rest ∧ StopsAt isNameChar rest) ∧
    ∀ taken, takenAt? .name mode expected before text = some taken ↔
      takenAt? .number mode expected before text = none ∧
      (∀ word ∈ reservedWords, firstWord text ≠ word.toList) ∧
      ∃ rest, IsMaximalMunch IsDottedText text taken rest ∧ StopsAt isNameChar rest := by
  have hNumber (other : List Char) : IsNumberText other ↔ isNumber other = true :=
    isNumber_iff.symm
  refine ⟨fun taken => ?_, fun taken => ?_⟩
  · simp only [takenAt?_eq_some .number rfl, takes_number_iff, longestNumber?, longest?_eq_some,
      isMaximalMunch_iff hNumber, and_assoc]
  · simp only [takenAt?_eq_some .name rfl, takenAt?_eq_none .number rfl rfl,
      isMaximalMunch_iff fun _ => isDottedText_iff]
    constructor
    · rintro ⟨rest, hTakes⟩
      obtain ⟨hReserved, hFails, hText, hDotted, hRest⟩ := takes_name_iff.1 hTakes
      exact ⟨hFails, firstWord_of_fails_reserved hReserved, rest,
        ⟨longest?_eq_some.1 (longest_of_takes_name hTakes), hText⟩, hRest.stopsAt_nameChar⟩
    · rintro ⟨hFails, hWords, rest, ⟨hLongest, rfl⟩, -⟩
      have hReserved : filterGrammar.Fails (before ++ (taken ++ rest)).length (.rule .reserved)
          (taken ++ rest) := by
        refine (takes_or_fails rfl _ (taken ++ rest)).resolve_left fun hTaken => ?_
        obtain ⟨_, _, hTakes⟩ := hTaken
        obtain ⟨word, hWord, hFirst⟩ := firstWord_of_takes_reserved hTakes
        exact hWords word hWord hFirst
      exact ⟨rest, takes_name_iff.2 ⟨hReserved, hFails, rfl, hLongest.satisfies,
        endsName_of_isLongest hLongest⟩⟩

/-- A dot may stand behind a number. A letter may not, and all of it is a name then. -/
example :
    takenAt? .number .initial .empty "x = ".toList "1e5.x".toList = some "1e5".toList ∧
      takenAt? .name .initial .empty "x = ".toList "5.e1x".toList = some "5.e1x".toList := by
  decide +kernel

end RowFilter
