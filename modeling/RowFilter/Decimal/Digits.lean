/-!
Numbers that decimal digits spell.

Digits are read in blocks whose lengths are powers of two, so that a long text takes few
multiplications of long numbers. The main statement says that this gives the number that reading
digit by digit gives.
-/

namespace RowFilter

def digitValue (c : Char) : Nat :=
  c.toNat - '0'.toNat

/-- The number that digits spell behind the digits of a number. -/
def appendDigits (n : Nat) (digits : List Char) : Nat :=
  digits.foldl (fun n c => 10 * n + digitValue c) n

/-- A block of digits at the beginning of a text. -/
structure DigitBlock where
  /-- The number that the digits spell. -/
  value : Nat
  /-- Ten to the number of the digits. -/
  power : Nat
  /-- The digits behind the block. -/
  rest : List Char

/-- Reads a block of two to the power `depth` digits, or of all digits if there are fewer. -/
def readBlock : Nat → List Char → DigitBlock
  | _, [] => ⟨0, 1, []⟩
  | 0, c :: rest => ⟨digitValue c, 10, rest⟩
  | depth + 1, digits =>
    let high := readBlock depth digits
    let low := readBlock depth high.rest
    ⟨high.value * low.power + low.value, high.power * low.power, low.rest⟩

/-- The number that decimal digits spell. -/
def digitsValue (digits : List Char) : Nat :=
  (readBlock (digits.length.log2 + 1) digits).value

/-- A block holds the first digits, and ends early only where the digits end. -/
theorem exists_readBlock (depth : Nat) (digits : List Char) :
    ∃ read, digits = read ++ (readBlock depth digits).rest ∧
      (∀ n, appendDigits n read =
        n * (readBlock depth digits).power + (readBlock depth digits).value) ∧
      ((readBlock depth digits).rest = [] ∨ Nat.pow 2 depth ≤ read.length) := by
  fun_induction readBlock depth digits with
  | case1 => exact ⟨[], rfl, fun n => (Nat.mul_one n).symm, Or.inl rfl⟩
  | case2 c rest =>
    refine ⟨[c], rfl, fun n => ?_, Or.inr (Nat.le_refl 1)⟩
    exact congrArg (· + digitValue c) (Nat.mul_comm 10 n)
  | case3 depth digits _ high low ihHigh ihLow =>
    obtain ⟨first, hFirst, hHigh, hFull⟩ := ihHigh
    obtain ⟨second, hSecond, hLow, hRest⟩ := ihLow
    refine ⟨first ++ second, ?_, fun n => ?_, ?_⟩
    · rw [List.append_assoc, ← hSecond, ← hFirst]
    · have hAppend : appendDigits n (first ++ second) =
          appendDigits (appendDigits n first) second := List.foldl_append
      rw [hAppend, hHigh, hLow, Nat.add_mul, Nat.mul_assoc, Nat.add_assoc]
    · rcases hRest with hRest | hRest
      · exact Or.inl hRest
      · rcases hFull with hFull | hFull
        · have hEmpty : second ++ low.rest = [] := hSecond.symm.trans hFull
          exact Or.inl (List.append_eq_nil_iff.1 hEmpty).2
        · have hDouble : Nat.pow 2 (depth + 1) = Nat.pow 2 depth * 2 := rfl
          rw [List.length_append, hDouble]
          exact Or.inr (by omega)

/-- Reading in blocks gives the number that reading digit by digit gives. -/
theorem digitsValue_eq_appendDigits (digits : List Char) :
    digitsValue digits = appendDigits 0 digits := by
  obtain ⟨read, hRead, hValue, hRest⟩ := exists_readBlock (digits.length.log2 + 1) digits
  have hLength := congrArg List.length hRead
  rw [List.length_append] at hLength
  have hLog : digits.length < Nat.pow 2 (digits.length.log2 + 1) := Nat.lt_log2_self
  have hEmpty : (readBlock (digits.length.log2 + 1) digits).rest = [] := by
    rcases hRest with hRest | hRest
    · exact hRest
    · omega
  rw [hEmpty, List.append_nil] at hRead
  rw [digitsValue, hRead, hValue 0, Nat.zero_mul, Nat.zero_add, ← hRead]

end RowFilter
