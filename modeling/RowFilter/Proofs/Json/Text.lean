import Mathlib.Tactic.SplitIfs
import RowFilter.Json.Writer
import RowFilter.Proofs.Decimal.Layout

/-! Compact JSON text determines its value, if all numbers in it are finite. A
value is told by the first character of its text, up to numbers, which are told
by their characters, so texts of different values differ whatever follows. -/

namespace RowFilter.Json

open Text

mutual

/-- The characters of a value without any blanks. -/
def text : Json → List Char
  | array [] => ['[', ']']
  | array (item :: items) => '[' :: (item.text ++ itemsText items)
  | object [] => ['\x7b', '\x7d']
  | object ((key, value) :: fields) =>
    '\x7b' :: ((quote key).toList ++ ':' :: (value.text ++ fieldsText fields))
  | value => (showScalar value).toList

def itemsText : List Json → List Char
  | [] => [']']
  | item :: items => ',' :: (item.text ++ itemsText items)

def fieldsText : List (String × Json) → List Char
  | [] => ['\x7d']
  | (key, value) :: fields =>
    ',' :: ((quote key).toList ++ ':' :: (value.text ++ fieldsText fields))

end

mutual

/-- Wherever a value stands, the same text is written for it. -/
theorem write_compact (level : Nat) (out : String) :
    (value : Json) → write .compact level out value = out ++ String.ofList value.text
  | array [] => rfl
  | array (item :: items) => by
    rw [write, writeItems_compact, write_compact, text]
    simp [Spacing.compact, ← String.toList_inj]
  | object [] => rfl
  | object ((key, value) :: fields) => by
    rw [write, writeFields_compact, write_compact, text]
    simp [Spacing.compact, ← String.toList_inj]
  | null | bool _ | integer _ | float _ | string _ => by
    simp [write, text]

theorem writeItems_compact (level : Nat) (out : String) : (items : List Json) →
    writeItems .compact level out items = out ++ String.ofList (itemsText items)
  | [] => by simp [writeItems, itemsText, Spacing.compact]
  | item :: items => by
    rw [writeItems, writeItems_compact, write_compact, itemsText]
    simp [Spacing.compact, ← String.toList_inj]

theorem writeFields_compact (level : Nat) (out : String) : (fields : List (String × Json)) →
    writeFields .compact level out fields = out ++ String.ofList (fieldsText fields)
  | [] => by simp [writeFields, fieldsText, Spacing.compact]
  | (key, value) :: fields => by
    rw [writeFields, writeFields_compact, write_compact, fieldsText]
    simp [Spacing.compact, ← String.toList_inj]

end

/-- The compact text of a value is its text without blanks. -/
theorem toList_compact (value : Json) : value.compact.toList = value.text := by
  rw [compact, write_compact, String.empty_append, String.toList_ofList]

section Strings

def hexValue (c : Char) : Nat :=
  if c.isDigit then c.toNat - '0'.toNat else c.toNat - 'a'.toNat + 10

/-- The first character that is written inside a string, and what follows it. The quote at the end
is none. -/
def unescape? : List Char → Option (Char × List Char)
  | '\\' :: 'n' :: rest => some ('\n', rest)
  | '\\' :: 't' :: rest => some ('\t', rest)
  | '\\' :: 'r' :: rest => some ('\r', rest)
  | '\\' :: 'b' :: rest => some ('\x08', rest)
  | '\\' :: 'f' :: rest => some ('\x0c', rest)
  | '\\' :: 'u' :: '0' :: '0' :: high :: low :: rest =>
    some (Char.ofNat (16 * hexValue high + hexValue low), rest)
  | '\\' :: c :: rest => some (c, rest)
  | '"' :: _ => none
  | c :: rest => some (c, rest)
  | [] => none

/-- Each character is read from what is written for it, whatever follows. -/
theorem unescape?_escape (c : Char) (rest : List Char) :
    unescape? (escape c ++ rest) = some (c, rest) := by
  have hControl : ∀ n < 0x20, 16 * hexValue (Nat.digitChar (n / 16)) +
      hexValue (Nat.digitChar (n % 16)) = n := by decide
  unfold escape
  split_ifs with hQuote hBackslash hLine hTab hReturn hBack hForm hCode
  any_goals
    subst c
    rfl
  · simp only [List.cons_append, List.nil_append, unescape?, hControl _ hCode, Char.ofNat_toNat]
  -- What is left is neither a quote nor a backslash, so it is written as it is.
  · rw [List.singleton_append]
    unfold unescape?
    split <;> simp_all

private theorem escape_append_inj {text other rest otherRest : List Char}
    (h : text.flatMap escape ++ '"' :: rest = other.flatMap escape ++ '"' :: otherRest) :
    text = other ∧ rest = otherRest := by
  induction text generalizing other with
  | nil =>
    cases other with
    | nil => exact ⟨rfl, (List.cons.inj h).2⟩
    | cons d other =>
      rw [List.flatMap_cons, List.append_assoc] at h
      have hRead := congrArg unescape? h
      rw [unescape?_escape] at hRead
      cases hRead
  | cons c text ih =>
    rw [List.flatMap_cons, List.append_assoc] at h
    have hRead := congrArg unescape? h
    rw [unescape?_escape] at hRead
    cases other with
    | nil => cases hRead
    | cons d other =>
      rw [List.flatMap_cons, List.append_assoc, unescape?_escape] at hRead
      obtain ⟨rfl, hBehind⟩ := Prod.mk.inj (Option.some.inj hRead)
      obtain ⟨rfl, hRest⟩ := ih hBehind
      exact ⟨rfl, hRest⟩

/-- A string ends at its closing quote. -/
theorem quote_append_inj {a b : String} {rest otherRest : List Char}
    (h : (quote a).toList ++ rest = (quote b).toList ++ otherRest) : a = b ∧ rest = otherRest := by
  simp only [quote, String.toList_ofList, List.cons_append, List.append_assoc, List.nil_append,
    List.cons.injEq, true_and] at h
  obtain ⟨hText, hRest⟩ := escape_append_inj h
  exact ⟨String.toList_inj.1 hText, hRest⟩

end Strings

/-- Values all of whose floating-point numbers are finite. What is not finite is written as null. -/
inductive IsFinite : Json → Prop where
  | null : IsFinite null
  | bool (value : Bool) : IsFinite (bool value)
  | integer (value : Int) : IsFinite (integer value)
  | float {value : Binary64} (h : value.isFinite = true) : IsFinite (float value)
  | string (value : String) : IsFinite (string value)
  | array {items : List Json} (h : ∀ item ∈ items, item.IsFinite) : IsFinite (array items)
  | object {fields : List (String × Json)} (h : ∀ field ∈ fields, field.2.IsFinite) :
      IsFinite (object fields)

section Numbers

def ofNumeral (n : Numeral) : Json :=
  if n.isIntegral then integer n.integer
  else float (Binary64.ofDecimal n.negative n.significand n.scale)

def IsNumber : Json → Prop
  | integer _ | float _ => True
  | _ => False

/-- A number is spelled by its text. -/
theorem exists_spelling {value : Json} (hNumber : value.IsNumber) (hFinite : value.IsFinite) :
    ∃ spelling : Spelling, value.text = spelling.text ∧ ofNumeral spelling.numeral = value := by
  cases value with
  | integer n =>
    obtain ⟨spelling, hText, hIntegral, hInteger⟩ := exists_spelling_toString n
    refine ⟨spelling, hText, ?_⟩
    rw [ofNumeral, if_pos hIntegral, hInteger]
  | float x =>
    cases hFinite with
    | float hFinite =>
    obtain ⟨spelling, hText, hIntegral, hValue⟩ :=
      FloatLayout.exists_spelling floatLayout .plus rfl rfl hFinite
    refine ⟨spelling, ?_, ?_⟩
    · rw [text, showScalar, showFloat, if_pos hFinite, hText]
      all_goals exact nofun
    · rw [ofNumeral, if_neg (Bool.eq_false_iff.1 hIntegral), hValue]
  | _ => exact hNumber.elim

end Numbers

/-- The kinds of values that are told apart by their first characters. -/
inductive Kind where
  | null
  | bool
  | number
  | string
  | array
  | object
deriving DecidableEq

/-- The kind of the values that begin with a character. -/
def Kind.ofFirst? (c : Char) : Option Kind :=
  if isNumberChar c then number
  else match c with
    | 'n' => null
    | 't' | 'f' => bool
    | '"' => string
    | '[' => array
    | '\x7b' => object
    | _ => none

def kind : Json → Kind
  | null => .null
  | bool _ => .bool
  | integer _ | float _ => .number
  | string _ => .string
  | array _ => .array
  | object _ => .object

variable {value other : Json} {rest otherRest : List Char}

/-- The kind of a value is told by its first character. -/
theorem exists_text_eq_cons (h : value.IsFinite) :
    ∃ first others, value.text = first :: others ∧ Kind.ofFirst? first = some value.kind := by
  have hSpelled (hNumber : value.IsNumber) :
      ∃ first others, value.text = first :: others ∧ Kind.ofFirst? first = some .number := by
    obtain ⟨spelling, hText, -⟩ := exists_spelling hNumber h
    obtain ⟨first, others, hCons, hFirst⟩ := Numeral.exists_text_eq_cons spelling
    exact ⟨first, others, hText.trans hCons, if_pos hFirst⟩
  cases value with
  | integer n => exact hSpelled trivial
  | float x => exact hSpelled trivial
  | null => exact ⟨'n', _, rfl, rfl⟩
  | bool value => cases value <;> exact ⟨_, _, rfl, rfl⟩
  | string value => exact ⟨'"', _, String.toList_ofList, rfl⟩
  | array items => cases items <;> exact ⟨'[', _, rfl, rfl⟩
  | object fields => cases fields <;> exact ⟨'\x7b', _, rfl, rfl⟩

private theorem kind_eq_of_text (hValue : value.IsFinite) (hOther : other.IsFinite)
    (h : value.text ++ rest = other.text ++ otherRest) : value.kind = other.kind := by
  obtain ⟨first, others, hText, hKind⟩ := exists_text_eq_cons hValue
  obtain ⟨otherFirst, otherOthers, hOtherText, hOtherKind⟩ := exists_text_eq_cons hOther
  rw [hText, hOtherText] at h
  obtain ⟨rfl, -⟩ := List.cons.inj h
  exact Option.some.inj (hKind.symm.trans hOtherKind)

/-- No value begins with the end of an array. -/
theorem text_append_ne_cons (h : value.IsFinite) : value.text ++ rest ≠ ']' :: otherRest := by
  obtain ⟨first, others, hText, hKind⟩ := exists_text_eq_cons h
  intro hEq
  rw [hText] at hEq
  obtain ⟨rfl, -⟩ := List.cons.inj hEq
  cases hKind

theorem number_append_inj (hNumber : value.IsNumber) (hOtherNumber : other.IsNumber)
    (hValue : value.IsFinite) (hOther : other.IsFinite) (hRest : StopsAt isNumberChar rest)
    (hOtherRest : StopsAt isNumberChar otherRest)
    (h : value.text ++ rest = other.text ++ otherRest) : value = other ∧ rest = otherRest := by
  obtain ⟨spelling, hText, hRead⟩ := exists_spelling hNumber hValue
  obtain ⟨otherSpelling, hOtherText, hOtherRead⟩ := exists_spelling hOtherNumber hOther
  rw [hText, hOtherText] at h
  obtain ⟨hNumeral, hBehind⟩ := Numeral.text_append_inj hRest hOtherRest h
  rw [← hRead, hNumeral, hOtherRead]
  exact ⟨rfl, hBehind⟩

theorem itemsText_stopsAt (items : List Json) (rest : List Char) :
    StopsAt isNumberChar (itemsText items ++ rest) := by
  cases items <;> exact rfl

theorem fieldsText_stopsAt (fields : List (String × Json)) (rest : List Char) :
    StopsAt isNumberChar (fieldsText fields ++ rest) := by
  cases fields <;> exact rfl

/-- Behind the bracket that opens an array, its items are written as if they were further ones,
without the first comma. -/
theorem itemsText_eq_of_text {items others : List Json} (hItems : ∀ item ∈ items, item.IsFinite)
    (hOthers : ∀ other ∈ others, other.IsFinite)
    (h : (array items).text ++ rest = (array others).text ++ otherRest) :
    itemsText items ++ rest = itemsText others ++ otherRest := by
  cases items with
  | nil =>
    cases others with
    | nil => exact (List.cons.inj h).2
    | cons other others =>
      simp only [text, List.cons_append, List.append_assoc, List.cons.injEq, true_and] at h
      exact absurd h.symm (text_append_ne_cons (hOthers other List.mem_cons_self))
  | cons item items =>
    cases others with
    | nil =>
      simp only [text, List.cons_append, List.append_assoc, List.cons.injEq, true_and] at h
      exact absurd h (text_append_ne_cons (hItems item List.mem_cons_self))
    | cons other others => exact congrArg (',' :: ·) (List.cons.inj h).2

private theorem fieldsText_eq_of_text {fields others : List (String × Json)}
    (h : (object fields).text ++ rest = (object others).text ++ otherRest) :
    fieldsText fields ++ rest = fieldsText others ++ otherRest := by
  cases fields <;> cases others
  case nil.nil => exact (List.cons.inj h).2
  case cons.cons => exact congrArg (',' :: ·) (List.cons.inj h).2
  -- A key begins with a quote, and the end of an object does not.
  all_goals simp [text, quote] at h

mutual

/-- Where nothing goes on with a number, the text of a value ends with the value. -/
theorem text_append_inj {rest otherRest : List Char} (hRest : StopsAt isNumberChar rest)
    (hOtherRest : StopsAt isNumberChar otherRest) :
    (value other : Json) → value.IsFinite → other.IsFinite →
      value.text ++ rest = other.text ++ otherRest → value = other ∧ rest = otherRest
  | array items, other, hValue, hOther, h => by
    have hKind := kind_eq_of_text hValue hOther h
    cases other with
    | array others =>
      cases hValue with | array hItems => cases hOther with | array hOthers =>
      obtain ⟨hEq, hBehind⟩ := itemsText_append_inj items others hItems hOthers
        (itemsText_eq_of_text hItems hOthers h)
      exact ⟨congrArg array hEq, hBehind⟩
    | _ => cases hKind
  | object fields, other, hValue, hOther, h => by
    have hKind := kind_eq_of_text hValue hOther h
    cases other with
    | object others =>
      cases hValue with | object hFields => cases hOther with | object hOthers =>
      obtain ⟨hEq, hBehind⟩ := fieldsText_append_inj fields others hFields hOthers
        (fieldsText_eq_of_text h)
      exact ⟨congrArg object hEq, hBehind⟩
    | _ => cases hKind
  | null, other, hValue, hOther, h => by
    have hKind := kind_eq_of_text hValue hOther h
    cases other with
    | null => exact ⟨rfl, List.append_cancel_left h⟩
    | _ => cases hKind
  | bool value, other, hValue, hOther, h => by
    have hKind := kind_eq_of_text hValue hOther h
    cases other with
    | bool other =>
      cases value <;> cases other
      · exact ⟨rfl, List.append_cancel_left h⟩
      · exact nomatch (List.cons.inj h).1
      · exact nomatch (List.cons.inj h).1
      · exact ⟨rfl, List.append_cancel_left h⟩
    | _ => cases hKind
  | string value, other, hValue, hOther, h => by
    have hKind := kind_eq_of_text hValue hOther h
    cases other with
    | string other =>
      obtain ⟨rfl, hBehind⟩ := quote_append_inj h
      exact ⟨rfl, hBehind⟩
    | _ => cases hKind
  | integer value, other, hValue, hOther, h | float value, other, hValue, hOther, h => by
    have hKind := kind_eq_of_text hValue hOther h
    cases other with
    | integer other | float other =>
      exact number_append_inj trivial trivial hValue hOther hRest hOtherRest h
    | _ => cases hKind

theorem itemsText_append_inj {rest otherRest : List Char} :
    (items others : List Json) → (∀ item ∈ items, item.IsFinite) →
      (∀ other ∈ others, other.IsFinite) →
      itemsText items ++ rest = itemsText others ++ otherRest → items = others ∧ rest = otherRest
  | [], [], _, _, h => ⟨rfl, (List.cons.inj h).2⟩
  | [], _ :: _, _, _, h => nomatch (List.cons.inj h).1
  | _ :: _, [], _, _, h => nomatch (List.cons.inj h).1
  | item :: items, other :: others, hItems, hOthers, h => by
    obtain ⟨hItem, hTail⟩ := List.forall_mem_cons.1 hItems
    obtain ⟨hOther, hOtherTail⟩ := List.forall_mem_cons.1 hOthers
    simp only [itemsText, List.cons_append, List.append_assoc, List.cons.injEq, true_and] at h
    obtain ⟨rfl, hBehind⟩ := text_append_inj (itemsText_stopsAt ..) (itemsText_stopsAt ..) item
      other hItem hOther h
    obtain ⟨rfl, hRest⟩ := itemsText_append_inj items others hTail hOtherTail hBehind
    exact ⟨rfl, hRest⟩

theorem fieldsText_append_inj {rest otherRest : List Char} :
    (fields others : List (String × Json)) → (∀ field ∈ fields, field.2.IsFinite) →
      (∀ other ∈ others, other.2.IsFinite) →
      fieldsText fields ++ rest = fieldsText others ++ otherRest →
      fields = others ∧ rest = otherRest
  | [], [], _, _, h => ⟨rfl, (List.cons.inj h).2⟩
  | [], _ :: _, _, _, h => nomatch (List.cons.inj h).1
  | _ :: _, [], _, _, h => nomatch (List.cons.inj h).1
  | (key, value) :: fields, (otherKey, other) :: others, hFields, hOthers, h => by
    obtain ⟨hValue, hTail⟩ := List.forall_mem_cons.1 hFields
    obtain ⟨hOther, hOtherTail⟩ := List.forall_mem_cons.1 hOthers
    simp only [fieldsText, List.cons_append, List.append_assoc, List.cons.injEq, true_and] at h
    obtain ⟨rfl, hColon⟩ := quote_append_inj h
    obtain ⟨rfl, hBehind⟩ := text_append_inj (fieldsText_stopsAt ..) (fieldsText_stopsAt ..) value
      other hValue hOther (List.cons.inj hColon).2
    obtain ⟨rfl, hRest⟩ := fieldsText_append_inj fields others hTail hOtherTail hBehind
    exact ⟨rfl, hRest⟩

end

/-- Values with finite numbers are told apart by their compact texts. -/
theorem compact_inj {value other : Json} (hValue : value.IsFinite) (hOther : other.IsFinite) :
    value.compact = other.compact ↔ value = other := by
  refine ⟨fun h => ?_, congrArg compact⟩
  rw [← String.toList_inj, toList_compact, toList_compact, ← List.append_nil value.text,
    ← List.append_nil other.text] at h
  exact (text_append_inj stopsAt_nil stopsAt_nil value other hValue hOther h).1

end RowFilter.Json
