import Mathlib
import RowFilter.Proofs.Binary64.Value

/-! The floating-point number nearest to a rational number. The rounding
intervals of the magnitudes lie side by side, each ending half way to the next
magnitude, so every rational number is in one of them and the magnitude of
that one is nearest. Beyond the interval of the largest finite magnitude a
number rounds to infinity. -/

namespace RowFilter.Binary64

section Tiling

/-- Magnitudes are a step apart. -/
theorem units_succ (magnitude : Nat) : units (magnitude + 1) = units magnitude + step magnitude := by
  by_cases hSmall : magnitude + 1 < 2 * binade
  · rw [units_of_lt hSmall, units_of_lt (Nat.lt_of_succ_lt hSmall),
      step_of_lt (Nat.lt_of_succ_lt hSmall)]
  have hBinade : ¬magnitude < binade ∧ ¬magnitude + 1 < binade := by
    simp only [binade] at *
    omega
  rw [units, units, step, if_neg hBinade.1, if_neg hBinade.2]
  simp only [Nat.shiftLeft_eq, ← Nat.add_mul]
  by_cases hLast : magnitude % binade + 1 < binade
  · have hDiv : (magnitude + 1) / binade = magnitude / binade := by
      simp only [binade] at *
      omega
    have hMod : (magnitude + 1) % binade = magnitude % binade + 1 := by
      simp only [binade] at *
      omega
    rw [hDiv, hMod, Nat.add_assoc]
  · -- The next magnitude begins a binade, whose steps are twice as wide.
    have hDiv : (magnitude + 1) / binade - 1 = magnitude / binade - 1 + 1 := by
      simp only [binade] at *
      omega
    have hMod : (magnitude + 1) % binade = 0 ∧ magnitude % binade + 1 = binade := by
      simp only [binade] at *
      omega
    rw [hDiv, hMod.1, Nat.add_assoc, hMod.2, Nat.pow_succ, Nat.add_zero, ← Nat.two_mul]
    ac_rfl

private theorem step_succ (magnitude : Nat) : step (magnitude + 1) =
    (if (magnitude + 1) % binade = 0 ∧ 2 * binade ≤ magnitude + 1 then 2 else 1) *
      step magnitude := by
  simp only [step, Nat.shiftLeft_eq, Nat.one_mul]
  split
  · next hFirst =>
    have hDiv : (magnitude + 1) / binade - 1 = magnitude / binade - 1 + 1 := by
      simp only [binade] at *
      omega
    rw [hDiv, Nat.pow_succ, Nat.mul_comm]
  · next hInner =>
    have hDiv : (magnitude + 1) / binade - 1 = magnitude / binade - 1 := by
      simp only [binade] at *
      omega
    rw [hDiv, Nat.one_mul]

/-- An interval begins where the one before it ends. -/
theorem low_succ (magnitude : Nat) :
    (roundingInterval (magnitude + 1)).low = (roundingInterval magnitude).high := by
  simp only [roundingInterval, units_succ, step_succ]
  split <;> omega

private theorem closed_eq (magnitude : Nat) :
    (roundingInterval magnitude).closed = decide (magnitude % 2 = 0) := rfl

private theorem high_eq (magnitude : Nat) :
    (roundingInterval magnitude).high = 4 * units magnitude + 2 * step magnitude := rfl

/-- A magnitude has at least its own number of units. -/
theorem le_units (magnitude : Nat) : magnitude ≤ units magnitude := by
  induction magnitude with
  | zero => exact Nat.zero_le _
  | succ magnitude ih =>
    have hStep := step_pos magnitude
    rw [units_succ]
    omega

/-- Every quotient is in the interval of a magnitude. -/
theorem exists_contains (num : Nat) {den : Nat} (hDen : 0 < den) :
    ∃ magnitude, (roundingInterval magnitude).contains num den = true := by
  suffices hBelow : ∀ magnitude, num ≤ (roundingInterval magnitude).high * den →
      ∃ found, (roundingInterval found).contains num den = true by
    apply hBelow num
    have hUnits := le_units num
    calc num ≤ (roundingInterval num).high := by
          rw [high_eq]
          omega
      _ ≤ (roundingInterval num).high * den := Nat.le_mul_of_pos_right _ hDen
  intro magnitude hHigh
  induction magnitude with
  | zero => exact ⟨0, Interval.contains_iff.2 ⟨(Nat.zero_mul den).symm ▸ Nat.zero_le num, hHigh, nofun⟩⟩
  | succ magnitude ih =>
    by_cases hLow : num ≤ (roundingInterval magnitude).high * den
    · exact ih hLow
    rw [Nat.not_le, ← low_succ] at hLow
    by_cases hEnd : num < (roundingInterval (magnitude + 1)).high * den
    · exact ⟨magnitude + 1, Interval.contains_iff.2 ⟨hLow.le, hHigh, fun _ => ⟨hLow, hEnd⟩⟩⟩
    -- An end belongs to the one of its two magnitudes that is even.
    have hEq : num = (roundingInterval (magnitude + 1)).high * den := by omega
    rcases Nat.mod_two_eq_zero_or_one (magnitude + 1) with hEven | hOdd
    · refine ⟨magnitude + 1, Interval.contains_iff.2 ⟨hLow.le, hHigh, fun hOpen => ?_⟩⟩
      rw [closed_eq, hEven] at hOpen
      cases hOpen
    · have hNext : (magnitude + 1 + 1) % 2 = 0 := by omega
      refine ⟨magnitude + 1 + 1, Interval.contains_iff.2 ⟨?_, ?_, fun hOpen => ?_⟩⟩
      · rw [low_succ, hEq]
      · rw [hEq, high_eq, high_eq, units_succ (magnitude + 1)]
        exact Nat.mul_le_mul_right den (by omega)
      · rw [closed_eq, hNext] at hOpen
        cases hOpen

end Tiling

section Distance

def toRat (x : Binary64) : ℚ := x.signedUnits / unitsInOne

/-- A finite number that is nearest to a rational number among all finite
numbers. If another number is as near, its magnitude is even. -/
structure IsNearest (x : Binary64) (v : ℚ) : Prop where
  isFinite : x.isFinite = true
  abs_sub_le : ∀ y : Binary64, y.isFinite = true → |x.toRat - v| ≤ |y.toRat - v|
  even_of_tie : ∀ y : Binary64, y.isFinite = true → |y.toRat - v| = |x.toRat - v| →
    y.toRat ≠ x.toRat → x.magnitude % 2 = 0

/-- Whether a rational number of quarter units lies in an interval. -/
def Interval.Covers (i : Interval) (q : ℚ) : Prop :=
  i.low ≤ q ∧ q ≤ i.high ∧ (i.closed = false → i.low < q ∧ q < i.high)

/-- An interval covers a quotient exactly if it contains it. -/
theorem Interval.covers_iff {i : Interval} {num den : ℕ} (hDen : 0 < den) :
    i.Covers (num / den) ↔ i.contains num den = true := by
  have hPos : (0 : ℚ) < den := Nat.cast_pos.2 hDen
  rw [Covers, contains_iff, le_div_iff₀ hPos, div_le_iff₀ hPos, lt_div_iff₀ hPos, div_lt_iff₀ hPos]
  exact_mod_cast Iff.rfl

variable {magnitude : ℕ} {q : ℚ}

/-- An end of an interval belongs to it only if the magnitude is even. -/
theorem Interval.Covers.even_of_end (h : (roundingInterval magnitude).Covers q)
    (hEnd : q = (roundingInterval magnitude).low ∨ q = (roundingInterval magnitude).high) :
    magnitude % 2 = 0 := by
  by_contra hOdd
  obtain ⟨hLow, hHigh⟩ := h.2.2 (decide_eq_false hOdd)
  rcases hEnd with hEnd | hEnd
  · exact absurd hEnd hLow.ne'
  · exact absurd hEnd hHigh.ne

private theorem abs_sub_le_of_half {u other q half : ℚ} (hHalf : 0 < half)
    (hOther : u + 2 * half ≤ other) (hq : q ≤ u + half) :
    |u - q| ≤ |other - q| ∧ (|other - q| = |u - q| → q = u + half) := by
  -- Half way to the next number, only that one is as near.
  rw [abs_of_pos (show 0 < other - q by linarith)]
  refine ⟨abs_le.2 ⟨by linarith, by linarith⟩, fun hTie => ?_⟩
  rcases abs_cases (u - q) with ⟨hAbs, -⟩ | ⟨hAbs, -⟩ <;> linarith

/-- No magnitude is nearer to a number than the one of its interval. Only the ends of
the interval are as near to another magnitude. -/
theorem Interval.Covers.abs_sub_le (h : (roundingInterval magnitude).Covers q) (other : ℕ) :
    |4 * (units magnitude : ℚ) - q| ≤ |4 * (units other : ℚ) - q| ∧
      (|4 * (units other : ℚ) - q| = |4 * (units magnitude : ℚ) - q| →
        units other ≠ units magnitude → magnitude % 2 = 0) := by
  rcases Nat.lt_trichotomy other magnitude with hLess | rfl | hGreater
  · obtain ⟨below, rfl⟩ := Nat.exists_eq_succ_of_ne_zero (Nat.ne_zero_of_lt hLess)
    have hOther : (units other : ℚ) ≤ units below :=
      Nat.cast_le.2 (units_mono (Nat.le_of_lt_succ hLess))
    have hUnits : (units (below + 1) : ℚ) = units below + step below := by
      exact_mod_cast units_succ below
    have hLow : ((roundingInterval (below + 1)).low : ℚ) = 4 * units below + 2 * step below := by
      exact_mod_cast low_succ below
    have hStep : (0 : ℚ) < 2 * step below := mul_pos two_pos (Nat.cast_pos.2 (step_pos below))
    have hStart := h.1
    rw [hLow] at hStart
    -- Downwards the same holds of the negated numbers.
    have hGap : -(4 * (units (below + 1) : ℚ)) + 2 * (2 * step below) ≤ -(4 * units other) := by
      linarith
    have hHalf : -q ≤ -(4 * (units (below + 1) : ℚ)) + 2 * step below := by linarith
    obtain ⟨hLe, hTie⟩ := abs_sub_le_of_half hStep hGap hHalf
    rw [neg_sub_neg, neg_sub_neg, abs_sub_comm q, abs_sub_comm q] at hLe hTie
    exact ⟨hLe, fun hEq _ => h.even_of_end (.inl (by linarith [hTie hEq]))⟩
  · exact ⟨le_rfl, fun _ hNe => absurd rfl hNe⟩
  · have hUnits : (units magnitude : ℚ) + step magnitude ≤ units other := by
      have hLe := units_mono (Nat.succ_le_of_lt hGreater)
      rw [Nat.succ_eq_add_one, units_succ] at hLe
      exact_mod_cast hLe
    have hHigh : ((roundingInterval magnitude).high : ℚ) =
        4 * units magnitude + 2 * step magnitude := by
      exact_mod_cast high_eq magnitude
    have hStep : (0 : ℚ) < 2 * step magnitude :=
      mul_pos two_pos (Nat.cast_pos.2 (step_pos magnitude))
    have hEnd := h.2.1
    rw [hHigh] at hEnd
    have hGap : 4 * (units magnitude : ℚ) + 2 * (2 * step magnitude) ≤ 4 * units other := by linarith
    obtain ⟨hLe, hTie⟩ := abs_sub_le_of_half hStep hGap hEnd
    exact ⟨hLe, fun hEq _ => h.even_of_end (.inr (by rw [hHigh, hTie hEq]))⟩

end Distance

section Signed

def signed (negative : Bool) (w : ℚ) : ℚ := if negative then -w else w

/-- The number of quarter units in one. -/
def quartersInOne : ℚ := 4 * unitsInOne

private theorem quartersInOne_pos : 0 < quartersInOne :=
  mul_pos four_pos (Nat.cast_pos.2 unitsInOne_pos)

/-- A sign does not change the distance from zero. -/
theorem abs_signed (negative : Bool) (w : ℚ) : |signed negative w| = |w| := by
  unfold signed
  split
  · exact abs_neg w
  · rfl

theorem toRat_eq (x : Binary64) :
    x.toRat = signed x.negative (4 * units x.magnitude / quartersInOne) := by
  rw [toRat, signedUnits, quartersInOne, signed, mul_div_mul_left _ _ four_ne_zero]
  split
  · rw [Int.cast_neg, Int.cast_natCast, neg_div]
  · rw [Int.cast_natCast]

variable {x y : Binary64} {negative : Bool} {w : ℚ}

/-- The distance of a number from one of the same sign, in quarter units. -/
theorem abs_toRat_sub_of_eq (h : x.negative = negative) :
    |x.toRat - signed negative w| =
      |4 * (units x.magnitude : ℚ) - w * quartersInOne| / quartersInOne := by
  have hDifference : x.toRat - signed negative w =
      signed negative ((4 * units x.magnitude - w * quartersInOne) / quartersInOne) := by
    rw [toRat_eq, h, sub_div, mul_div_cancel_right₀ w quartersInOne_pos.ne', signed, signed, signed]
    split
    · ring
    · rfl
  rw [hDifference, abs_signed, abs_div, abs_of_pos quartersInOne_pos]

/-- The distance of a number from one of the other sign, in quarter units. -/
theorem abs_toRat_sub_of_ne (hPos : 0 ≤ w) (h : x.negative ≠ negative) :
    |x.toRat - signed negative w| =
      (4 * (units x.magnitude : ℚ) + w * quartersInOne) / quartersInOne := by
  have hDifference : x.toRat - signed negative w =
      signed x.negative ((4 * units x.magnitude + w * quartersInOne) / quartersInOne) := by
    rw [toRat_eq, Bool.eq_not_of_ne h, add_div, mul_div_cancel_right₀ w quartersInOne_pos.ne']
    cases negative <;> simp only [signed, Bool.not_true, Bool.not_false, if_true, if_false,
      Bool.false_eq_true] <;> ring
  have hUnits : (0 : ℚ) ≤ 4 * units x.magnitude := mul_nonneg zero_le_four (Nat.cast_nonneg _)
  rw [hDifference, abs_signed, abs_div, abs_of_pos quartersInOne_pos,
    abs_of_nonneg (add_nonneg hUnits (mul_nonneg hPos quartersInOne_pos.le))]

/-- A finite number is nearest to the numbers of its sign in the interval of its magnitude. -/
theorem isNearest_of_covers (hFinite : x.isFinite = true)
    (h : (roundingInterval x.magnitude).Covers (w * quartersInOne)) :
    x.IsNearest (signed x.negative w) := by
  have hScaled : 0 ≤ w * quartersInOne := (Nat.cast_nonneg _).trans h.1
  have hPos : 0 ≤ w := nonneg_of_mul_nonneg_left hScaled quartersInOne_pos
  have hOwn := abs_toRat_sub_of_eq (w := w) (rfl : x.negative = x.negative)
  -- Numbers of the other sign are no nearer than zero is.
  obtain ⟨hZero, hZeroTie⟩ := h.abs_sub_le 0
  have hUnits : units 0 = 0 := rfl
  rw [hUnits, Nat.cast_zero, mul_zero, zero_sub, abs_neg, abs_of_nonneg hScaled] at hZero hZeroTie
  refine ⟨hFinite, fun y _ => ?_, fun y _ hTie hNe => ?_⟩
  · rw [hOwn]
    by_cases hSign : y.negative = x.negative
    · rw [abs_toRat_sub_of_eq hSign, div_le_div_iff_of_pos_right quartersInOne_pos]
      exact (h.abs_sub_le y.magnitude).1
    · rw [abs_toRat_sub_of_ne hPos hSign, div_le_div_iff_of_pos_right quartersInOne_pos]
      exact hZero.trans (le_add_of_nonneg_left (mul_nonneg zero_le_four (Nat.cast_nonneg _)))
  · rw [hOwn] at hTie
    by_cases hSign : y.negative = x.negative
    · rw [abs_toRat_sub_of_eq hSign, div_left_inj' quartersInOne_pos.ne'] at hTie
      apply (h.abs_sub_le y.magnitude).2 hTie
      intro hEq
      rw [toRat_eq, toRat_eq, hSign, hEq] at hNe
      exact hNe rfl
    · rw [abs_toRat_sub_of_ne hPos hSign, div_left_inj' quartersInOne_pos.ne'] at hTie
      have hOther : (0 : ℚ) ≤ units y.magnitude := Nat.cast_nonneg _
      apply hZeroTie (by linarith)
      intro hEq
      have hY : (units y.magnitude : ℚ) = 0 := by linarith
      rw [toRat_eq, toRat_eq, hY, ← hEq, Nat.cast_zero, mul_zero, zero_div, signed, signed] at hNe
      simp at hNe

end Signed

section Overflow

/-- The least rational number that rounds to infinity, half way between the largest finite
number and two to the power 1024. -/
def overflowThreshold : ℚ := 2 ^ 1024 - 2 ^ 970

/-- The threshold is the lower end of the interval of infinity. -/
theorem overflowThreshold_mul_quartersInOne :
    overflowThreshold * quartersInOne = (roundingInterval infinity).low := by
  have hLow : (roundingInterval infinity).low = (2 ^ 1024 - 2 ^ 970) * (4 * unitsInOne) := by
    decide +kernel
  have hLe : (2 : ℕ) ^ 970 ≤ 2 ^ 1024 := pow_le_pow_right₀ one_le_two (by decide)
  rw [hLow, overflowThreshold, quartersInOne, Nat.cast_mul, Nat.cast_sub hLe, Nat.cast_mul,
    Nat.cast_pow, Nat.cast_pow, Nat.cast_ofNat, Nat.cast_ofNat]

variable {magnitude : ℕ} {q : ℚ}

/-- A number rounds to infinity, or beyond, exactly if the interval of infinity does not begin
above it. -/
theorem Interval.Covers.infinity_le_iff (h : (roundingInterval magnitude).Covers q) :
    infinity ≤ magnitude ↔ (roundingInterval infinity).low ≤ q := by
  constructor
  · intro hInfinite
    refine le_trans (Nat.cast_le.2 ?_) h.1
    rcases hInfinite.eq_or_lt with rfl | hLess
    · exact le_rfl
    · obtain ⟨below, rfl⟩ := Nat.exists_eq_succ_of_ne_zero (Nat.ne_zero_of_lt hLess)
      have hUnits := units_mono (Nat.le_of_lt_succ hLess)
      rw [Nat.succ_eq_add_one, low_succ, high_eq]
      change 4 * units infinity - _ ≤ _
      omega
  · intro hLow
    by_contra hFinite
    have hLast : infinity = infinity - 1 + 1 := by decide
    have hEnd : (roundingInterval infinity).low = (roundingInterval (infinity - 1)).high := by
      conv_lhs => rw [hLast]
      exact low_succ (infinity - 1)
    rw [hEnd] at hLow
    by_cases hSame : magnitude = infinity - 1
    · -- The largest finite magnitude is odd, so the end of its interval is not part of it.
      subst hSame
      exact absurd (h.2.2 (by decide)).2 (not_lt.2 hLow)
    · have hUnits := units_mono (show magnitude + 1 ≤ infinity - 1 by omega)
      have hStep := step_pos (infinity - 1)
      have hLess : (roundingInterval magnitude).high < (roundingInterval (infinity - 1)).high := by
        rw [units_succ] at hUnits
        have hOwnStep := step_pos magnitude
        rw [high_eq, high_eq]
        omega
      exact absurd (h.2.1.trans_lt (Nat.cast_lt.2 hLess)) (not_lt.2 hLow)

variable {w : ℚ}

/-- Numbers below the threshold are the ones that round to finite numbers. -/
theorem Interval.Covers.isFinite_iff (h : (roundingInterval magnitude).Covers (w * quartersInOne))
    (negative : Bool) :
    (ofMagnitude negative magnitude).isFinite = true ↔ w < overflowThreshold := by
  rw [ofMagnitude_isFinite, ← not_le, h.infinity_le_iff, ← overflowThreshold_mul_quartersInOne,
    mul_le_mul_iff_left₀ quartersInOne_pos, not_le]

/-- A finite number is nearest to the numbers of its sign in its interval. -/
theorem Interval.Covers.isNearest (h : (roundingInterval magnitude).Covers (w * quartersInOne))
    {negative : Bool} (hFinite : (ofMagnitude negative magnitude).isFinite = true) :
    (ofMagnitude negative magnitude).IsNearest (signed negative w) := by
  have hMagnitude : (ofMagnitude negative magnitude).magnitude = magnitude :=
    min_eq_left (ofMagnitude_isFinite.1 hFinite).le
  exact isNearest_of_covers hFinite (by rwa [hMagnitude])

end Overflow

end RowFilter.Binary64
