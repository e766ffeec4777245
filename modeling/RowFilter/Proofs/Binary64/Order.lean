import RowFilter.Proofs.Binary64.Rounding

/-! The total order of floating-point numbers. Rounding is monotone, so the
numbers nearest to two integers come in the order of the integers. -/

namespace RowFilter

private theorem le_roundHalfEven (num den : Nat) : num / den ≤ roundHalfEven num den := by
  simp only [roundHalfEven]
  split
  · omega
  · split <;> omega

private theorem roundHalfEven_mono {num other den : Nat} (h : num ≤ other) :
    roundHalfEven num den ≤ roundHalfEven other den := by
  rcases Nat.lt_or_eq_of_le (Nat.div_le_div_right (c := den) h) with hQuotient | hQuotient
  · exact Nat.le_trans (roundHalfEven_le num den)
      (Nat.le_trans hQuotient (le_roundHalfEven other den))
  · have hRest : num % den ≤ other % den := by
      have hNum := Nat.div_add_mod num den
      have hOther := Nat.div_add_mod other den
      rw [hQuotient] at hNum
      omega
    simp only [roundHalfEven, hQuotient]
    generalize other / den = quotient
    split
    · split
      · exact Nat.le_refl _
      · split <;> omega
    · split
      · exact Nat.le_of_eq (by rw [if_neg (by omega), if_pos (by omega)])
      · rw [if_neg (by omega)]
        split <;> omega

namespace Binary64

/-- The whole part of a quotient above the lowest two binades, counted in the steps of its
magnitude, has 53 bits. -/
theorem binade_le_div_shift {num den : Nat} (h : 52 < (num / den).log2) :
    binade ≤ num / (den <<< ((num / den).log2 - 52)) := by
  have hNe : num / den ≠ 0 := by
    intro hZero
    rw [hZero] at h
    exact absurd h (by decide)
  rw [Nat.shiftLeft_eq, ← Nat.div_div_eq_div_mul, Nat.le_div_iff_mul_le (Nat.two_pow_pos _),
    show binade = 2 ^ 52 from rfl, ← Nat.pow_add]
  rw [show 52 + ((num / den).log2 - 52) = (num / den).log2 by omega]
  exact Nat.log2_self_le hNe

private theorem log2_mono {m n : Nat} (h : m ≤ n) : m.log2 ≤ n.log2 := by
  by_cases hZero : m = 0
  · rw [hZero, Nat.log2_zero]
    exact Nat.zero_le _
  · exact (Nat.le_log2 (by omega)).2 (Nat.le_trans (Nat.log2_self_le hZero) h)

/-- A larger number of units is nearest to the same or a larger magnitude. In one binade the
numbers are rounded to multiples of one width, and from binade to binade the magnitudes grow. -/
theorem nearestMagnitude_mono {num other den : Nat} (h : num ≤ other) :
    nearestMagnitude num den ≤ nearestMagnitude other den := by
  have hLog := log2_mono (Nat.div_le_div_right (c := den) h)
  by_cases hSame : (num / den).log2 - 52 = (other / den).log2 - 52
  · simp only [nearestMagnitude, hSame]
    exact Nat.add_le_add_left (roundHalfEven_mono h) _
  · have hBelow := nearestMagnitude_le num den
    have hAbove : binade ≤ roundHalfEven other (den <<< ((other / den).log2 - 52)) :=
      Nat.le_trans (binade_le_div_shift (by omega)) (le_roundHalfEven other _)
    have hBinades : ((num / den).log2 - 52 + 2) * binade ≤
        ((other / den).log2 - 52) * binade + binade := by
      rw [← Nat.succ_mul]
      exact Nat.mul_le_mul_right binade (by omega)
    simp only [nearestMagnitude] at hBelow ⊢
    omega

private theorem shiftLeft_mono {m n : Nat} (h : m ≤ n) (shift : Nat) :
    m <<< shift ≤ n <<< shift := by
  rw [Nat.shiftLeft_eq, Nat.shiftLeft_eq]
  exact Nat.mul_le_mul_right _ h

/-- The numbers nearest to integers come in the order of the integers. -/
theorem rank_ofInt_mono {m n : Int} (h : m ≤ n) : (ofInt m).rank ≤ (ofInt n).rank := by
  have hUnits {a b : Nat} (hLe : a ≤ b) :
      nearestMagnitude (a <<< 1074) 1 ≤ nearestMagnitude (b <<< 1074) 1 :=
    nearestMagnitude_mono (shiftLeft_mono hLe 1074)
  simp only [rank, ofInt, ofQuotient, ofMagnitude, decide_eq_true_eq]
  generalize hM : nearestMagnitude (m.natAbs <<< 1074) 1 = below
  generalize hN : nearestMagnitude (n.natAbs <<< 1074) 1 = above
  split
  · split
    · have hMagnitude := hUnits (show n.natAbs ≤ m.natAbs by omega)
      rw [hM, hN] at hMagnitude
      omega
    · omega
  · rw [if_neg (by omega)]
    have hMagnitude := hUnits (show m.natAbs ≤ n.natAbs by omega)
    rw [hM, hN] at hMagnitude
    omega

/-- A floating-point number is known by its place in the total order. -/
theorem rank_inj {x y : Binary64} : x.rank = y.rank ↔ x = y := by
  refine ⟨fun h => ?_, fun h => h ▸ rfl⟩
  obtain ⟨negativeX, magnitudeX, _⟩ := x
  obtain ⟨negativeY, magnitudeY, _⟩ := y
  simp only [rank] at h
  cases negativeX <;> cases negativeY <;>
    simp only [if_true, if_false, Bool.false_eq_true] at h <;> simp only [mk.injEq, true_and] <;>
    omega

end Binary64

end RowFilter
