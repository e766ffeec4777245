import RowFilter.Proofs.Postgres.Token

/-! Texts that are read as tokens by their pieces. A piece must not run on
into what follows it, so each piece but the last is followed by a blank, a
closing parenthesis or a comma. -/

namespace RowFilter.Postgres

open Text

/-- Whether a text is read as some tokens wherever a delimiter or nothing follows. -/
def Lexes (text : List Char) (tokens : List Token) : Prop :=
  ∀ rest, StopsAt (!isDelimiter ·) rest →
    tokens? (text ++ rest) = (tokens? rest).map (tokens ++ ·)

namespace Lexes

variable {text first second : List Char} {tokens firstTokens secondTokens : List Token}

theorem nil : Lexes [] [] := by
  intro rest _
  exact Option.map_id'.symm

/-- A whole text is read. -/
theorem tokens?_eq (h : Lexes text tokens) : tokens? text = some tokens := by
  have hRead := h [] trivial
  rw [List.append_nil, tokens?, Option.map_some, List.append_nil] at hRead
  exact hRead

/-- Texts are read one behind the other if a delimiter stands between them. -/
theorem append (hFirst : Lexes first firstTokens) (hSecond : Lexes second secondTokens)
    (hStart : StopsAt (!isDelimiter ·) second) :
    Lexes (first ++ second) (firstTokens ++ secondTokens) := by
  intro rest hRest
  rw [List.append_assoc, hFirst _ (hStart.append hRest), hSecond _ hRest, Option.map_map]
  simp only [Function.comp_def, List.append_assoc]

theorem blank (h : Lexes text tokens) : Lexes (' ' :: text) tokens := by
  intro rest hRest
  rw [List.cons_append, tokens?_blank, h rest hRest]

theorem punctuation {c : Char} (hMark : c = '(' ∨ c = ')' ∨ c = ',') (h : Lexes text tokens) :
    Lexes (c :: text) (.symbol (String.ofList [c]) :: tokens) := by
  intro rest hRest
  have hNext := @next?_punctuation (text ++ rest) c hMark
  have hRead : tokens? (c :: (text ++ rest)) =
      (tokens? (text ++ rest)).map (.symbol (String.ofList [c]) :: ·) :=
    tokens?_of_next? (List.cons_ne_nil c []) hNext
  rw [List.cons_append, hRead, h rest hRest, Option.map_map]
  rfl

theorem parentheses (h : Lexes text tokens) :
    Lexes ('(' :: text ++ [')']) (.symbol "(" :: tokens ++ [.symbol ")"]) :=
  punctuation (.inl rfl) (h.append (punctuation (.inr (.inl rfl)) nil) rfl)

/-- A text that is a single token. -/
theorem token {token : Token} (hNonempty : text ≠ [])
    (h : ∀ rest, StopsAt (!isDelimiter ·) rest → next? (text ++ rest) = some (token, rest)) :
    Lexes text [token] :=
  fun rest hRest => tokens?_of_next? hNonempty (h rest hRest)

end Lexes

/-- A quoted identifier is one token. -/
theorem lexes_identifier (name : String) : Lexes (identifier name).toList [.identifier name] :=
  .token (by simp [identifier, quoted]) fun _ => next?_identifier name

/-- A quoted text is one token. -/
theorem lexes_string (text : String) : Lexes (string text).toList [.string text] :=
  .token (by simp [string, quoted]) fun _ => next?_string text

/-- A spelled number is one token. -/
theorem lexes_number (spelling : Spelling) : Lexes spelling.text [.number spelling.numeral] := by
  apply Lexes.token
  · intro hNil
    have hStarts := @startsNumber_text [] spelling
    rw [hNil] at hStarts
    cases hStarts
  · exact fun _ => next?_number spelling

def isCapital (word : String) : Bool :=
  !word.toList.isEmpty && word.toList.all fun c => isWordStart c && c.toUpper = c

/-- Words in capitals are read as they are. -/
theorem lexes_word (word : String) (h : isCapital word = true) :
    Lexes word.toList [.word word] := by
  simp only [isCapital, Bool.and_eq_true, Bool.not_eq_true', List.isEmpty_eq_false_iff,
    List.all_eq_true, decide_eq_true_eq] at h
  obtain ⟨c, text, hText⟩ := List.exists_cons_of_ne_nil h.1
  have hLetters := h.2
  have hUpper : word.toList.map Char.toUpper = word.toList := by
    rw [List.map_congr_left fun c hc => (hLetters c hc).2, List.map_id']
  have hWord : String.ofList ((c :: text).map Char.toUpper) = word := by
    rw [← hText, hUpper, String.ofList_toList]
  rw [hText, List.forall_mem_cons] at hLetters
  rw [hText]
  have hChars : ∀ d ∈ text, isWordChar d = true := by
    intro d hd
    simp [isWordChar, (hLetters.2 d hd).1]
  apply Lexes.token (List.cons_ne_nil c text)
  intro rest hRest
  rw [next?_word hLetters.1.1 hChars hRest, hWord]

theorem lexes_symbol (operator : Comparison) :
    Lexes (symbol operator).toList [.symbol (symbol operator)] := by
  cases operator <;>
    exact .token (by decide) fun _ hRest => next?_operator rfl (by decide) hRest

end RowFilter.Postgres
