import RowFilter.Text.Position

/-! Byte offsets in a text. Cutting a text behind a piece it begins with
gives that piece back, because every character takes at least one byte. -/

namespace RowFilter.Text

private theorem foldl_utf8Size (n : Nat) (text : List Char) :
    text.foldl (fun n c => n + c.utf8Size) n = n + byteLength text := by
  induction text generalizing n with
  | nil => rfl
  | cons c text ih =>
    simp only [byteLength, List.foldl_cons] at ih ⊢
    rw [ih, ih (0 + c.utf8Size)]
    omega

@[simp] theorem byteLength_nil : byteLength [] = 0 := rfl

@[simp] theorem byteLength_cons (c : Char) (text : List Char) :
    byteLength (c :: text) = c.utf8Size + byteLength text := by
  rw [byteLength, List.foldl_cons, foldl_utf8Size]
  omega

@[simp] theorem byteLength_append (first second : List Char) :
    byteLength (first ++ second) = byteLength first + byteLength second := by
  induction first with
  | nil => simp
  | cons c first ih => simp only [List.cons_append, byteLength_cons, ih, Nat.add_assoc]

/-- Only the empty text takes no bytes. -/
theorem byteLength_eq_zero {text : List Char} : byteLength text = 0 ↔ text = [] := by
  cases text with
  | nil => simp
  | cons c text =>
    have hPos := c.utf8Size_pos
    simp only [byteLength_cons, reduceCtorEq, iff_false]
    omega

private theorem splitBytesFrom_zero (seen text : List Char) :
    splitBytesFrom seen 0 text = (seen.reverse, text) := by
  cases text with
  | nil => rfl
  | cons c text =>
    have hPos := c.utf8Size_pos
    rw [splitBytesFrom, if_neg (by omega)]

private theorem splitBytesFrom_append (seen text rest : List Char) :
    splitBytesFrom seen (byteLength text) (text ++ rest) = (seen.reverse ++ text, rest) := by
  induction text generalizing seen with
  | nil => simp [splitBytesFrom_zero]
  | cons c text ih =>
    have hFits : c.utf8Size ≤ c.utf8Size + byteLength text := Nat.le_add_right ..
    rw [List.cons_append, byteLength_cons, splitBytesFrom, if_pos hFits, Nat.add_sub_cancel_left,
      ih]
    simp

/-- A text is cut where a piece that it begins with ends. -/
theorem splitBytes_append (text rest : List Char) :
    splitBytes (byteLength text) (text ++ rest) = (text, rest) :=
  splitBytesFrom_append [] text rest

/-- A beginning of a text ends at a boundary. -/
theorem isBoundary_byteLength (text rest : List Char) :
    isBoundary (byteLength text) (text ++ rest) = true :=
  decide_eq_true (by rw [splitBytes_append])

private theorem splitBytesFrom_fst_append_snd (seen : List Char) (bytes : Nat) (text : List Char) :
    (splitBytesFrom seen bytes text).1 ++ (splitBytesFrom seen bytes text).2 =
      seen.reverse ++ text := by
  induction text generalizing seen bytes with
  | nil => rfl
  | cons c text ih =>
    rw [splitBytesFrom]
    split
    · rw [ih, List.reverse_cons, List.append_assoc, List.singleton_append]
    · rfl

/-- No character is lost where a text is cut. -/
theorem splitBytes_fst_append_snd (bytes : Nat) (text : List Char) :
    (splitBytes bytes text).1 ++ (splitBytes bytes text).2 = text :=
  splitBytesFrom_fst_append_snd [] bytes text

/-- Pieces with which a text begins are the same if they take as many bytes. -/
theorem append_inj_of_byteLength {text other rest behind : List Char}
    (h : text ++ rest = other ++ behind) (hLength : byteLength text = byteLength other) :
    text = other ∧ rest = behind := by
  have hSplit := splitBytes_append text rest
  rw [h, hLength, splitBytes_append] at hSplit
  exact Prod.mk.inj hSplit.symm

end RowFilter.Text
