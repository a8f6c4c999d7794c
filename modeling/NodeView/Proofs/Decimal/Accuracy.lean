import NodeView.Proofs.Decimal.Rounding
/-!
# NodeView.Proofs.Decimal.Accuracy

How far rounding takes a number from what it was.

One rounding is off by at most one part in `2 ^ 53`, or by half of the smallest number of the
format where that is more (`Rounding.within`). `Within` counts both kinds of error, and the errors
of steps that follow one another add up: through a further rounding (`Within.trans`), through a
product (`Within.mul`) and through a quotient (`Within.div`). What has a significand of 53 bits is
not off at all (`Rounding.eq_of_dyadic`).
-/

namespace NodeView

/-- `y` is off `x` by at most `δ` parts of `x` and `η` more. -/
structure Within (δ η x y : ℚ) : Prop where
  low : x - (δ * x + η) ≤ y
  high : y ≤ x + (δ * x + η)

namespace Within

variable {a b α β x y z p q : ℚ}

theorem mono (h : Within a α x y) (hx : 0 ≤ x) (hab : a ≤ b) (hαβ : α ≤ β) : Within b β x y := by
  have hle : a * x ≤ b * x := mul_le_mul_of_nonneg_right hab hx
  obtain ⟨hlow, hhigh⟩ := h
  constructor <;> linarith

theorem abs_sub_le (h : Within a α x y) : |y - x| ≤ a * x + α := by
  obtain ⟨hlow, hhigh⟩ := h
  exact abs_sub_le_iff.mpr ⟨by linarith, by linarith⟩

theorem refl (x : ℚ) : Within 0 0 x x where
  low := by linarith
  high := by linarith

/-- Only zero is near zero, if there is no absolute error. -/
theorem eq_zero (h : Within a 0 x 0) (hx : 0 ≤ x) (ha : a < 1) : x = 0 := by
  have hlow := h.low
  have hrest : (1 - a) * x ≤ 0 := by linarith
  exact le_antisymm (nonpos_of_mul_nonpos_right hrest (by linarith)) hx

/-- Numbers between the same two multiples of a unit are near each other, if these are large. -/
theorem of_between {n : Nat} {u : ℚ} (hn : 2 ^ 60 ≤ n) (hu : 0 ≤ u) (hx : n * u ≤ x)
    (hx' : x ≤ (n + 1) * u) (hy : n * u ≤ y) (hy' : y ≤ (n + 1) * u) :
    Within (1 / 2 ^ 60) 0 x y := by
  have hn' : (2 ^ 60 : ℚ) * u ≤ n * u := mul_le_mul_of_nonneg_right (by exact_mod_cast hn) hu
  constructor <;> linarith

/-- What is near what is near a number is near the number. -/
theorem trans (h : Within a α x y) (h' : Within b β y z) (hx : 0 ≤ x) (ha : 0 ≤ a) (hα : 0 ≤ α)
    (hb : 0 ≤ b) (hb1 : b ≤ 1) : Within (a + b + a * b) (α + β + b * α) x z := by
  have habx : 0 ≤ a * b * x := by positivity
  have hbα : 0 ≤ b * α := by positivity
  constructor
  · have hy : (1 - b) * (x - (a * x + α)) ≤ (1 - b) * y :=
      mul_le_mul_of_nonneg_left h.low (by linarith)
    have hz := h'.low
    linarith
  · have hy : (1 + b) * y ≤ (1 + b) * (x + (a * x + α)) :=
      mul_le_mul_of_nonneg_left h.high (by linarith)
    have hz := h'.high
    linarith

theorem mul (h : Within a 0 x y) (h' : Within b 0 p q) (hx : 0 ≤ x) (hp : 0 ≤ p) (hy : 0 ≤ y)
    (hq : 0 ≤ q) (ha : 0 ≤ a) (hb : 0 ≤ b) (hb1 : b ≤ 1) :
    Within (a + b + a * b) 0 (x * p) (y * q) := by
  have habxp : 0 ≤ a * b * (x * p) := by positivity
  constructor
  · have hfirst : (x - (a * x + 0)) * ((1 - b) * p) ≤ y * ((1 - b) * p) :=
      mul_le_mul_of_nonneg_right h.low (mul_nonneg (by linarith) hp)
    have hsecond : y * (p - (b * p + 0)) ≤ y * q := mul_le_mul_of_nonneg_left h'.low hy
    linarith
  · have hfirst : y * q ≤ (x + (a * x + 0)) * q := mul_le_mul_of_nonneg_right h.high hq
    have hsecond : (x + (a * x + 0)) * q ≤ (x + (a * x + 0)) * (p + (b * p + 0)) :=
      mul_le_mul_of_nonneg_left h'.high (by positivity)
    linarith

theorem div (h : Within a α x y) (h' : Within b 0 p q) (hx : 0 ≤ x) (hp : 0 < p) (hy : 0 ≤ y)
    (ha : 0 ≤ a) (hα : 0 ≤ α) (hb : 0 ≤ b) (hb1 : b ≤ 1 / 2) :
    Within (a + 2 * b + 2 * a * b) (2 * α / p) (x / p) (y / q) := by
  have hlow : (1 - b) * p ≤ q := by have := h'.low; linarith
  have hhigh : q ≤ (1 + b) * p := by have := h'.high; linarith
  have hsmall : 0 < (1 - b) * p := mul_pos (by linarith) hp
  have hq : 0 < q := lt_of_lt_of_le hsmall hlow
  constructor
  · have hy' : y * (1 - b) / p ≤ y / q := by
      rw [div_le_div_iff₀ hp hq]
      have hle : (1 - b) * q ≤ p := by
        have := mul_le_mul_of_nonneg_left hhigh (by linarith : 0 ≤ 1 - b)
        have hbb : 0 ≤ b * b * p := by positivity
        linarith
      have := mul_le_mul_of_nonneg_left hle hy
      linarith
    refine le_trans ?_ hy'
    rw [show x / p - ((a + 2 * b + 2 * a * b) * (x / p) + 2 * α / p)
        = (x - ((a + 2 * b + 2 * a * b) * x + 2 * α)) / p by ring]
    gcongr
    have hscaled := mul_le_mul_of_nonneg_right h.low (by linarith : 0 ≤ 1 - b)
    have habx : 0 ≤ a * b * x := by positivity
    have hbx : 0 ≤ b * x := by positivity
    have hbα : 0 ≤ b * α := by positivity
    linarith
  · have hy' : y / q ≤ y * (1 + 2 * b) / p := by
      rw [div_le_div_iff₀ hq hp]
      have hle : p ≤ (1 + 2 * b) * q := by
        have := mul_le_mul_of_nonneg_left hlow (by linarith : 0 ≤ 1 + 2 * b)
        have hbb : 0 ≤ b * (1 - 2 * b) * p := by
          have : 0 ≤ 1 - 2 * b := by linarith
          positivity
        linarith
      have := mul_le_mul_of_nonneg_left hle hy
      linarith
    refine le_trans hy' ?_
    rw [show x / p + ((a + 2 * b + 2 * a * b) * (x / p) + 2 * α / p)
        = (x + ((a + 2 * b + 2 * a * b) * x + 2 * α)) / p by ring]
    gcongr
    have hscaled := mul_le_mul_of_nonneg_right h.high (by linarith : 0 ≤ 1 + 2 * b)
    have hbα : 2 * b * α ≤ α := by
      have := mul_le_mul_of_nonneg_right hb1 hα
      linarith
    linarith

end Within

namespace Rounding

variable {x : ℚ} {s : Nat} {e : Int}

/-- A number is off by at most half of the last place that it is rounded to. -/
theorem abs_sub_le (h : Rounding x s e) : |(s : ℚ) * 2 ^ e - x| ≤ 2 ^ e / 2 := by
  have hpos : (0 : ℚ) < 2 ^ e := by positivity
  have hlow := h.rounds.low
  have hhigh := h.rounds.high
  rw [le_div_iff₀ hpos] at hlow
  rw [div_le_iff₀ hpos] at hhigh
  exact abs_sub_le_iff.mpr ⟨by linarith, by linarith⟩

/-- From the smallest number with a full significand on, the error is one part in `2 ^ 53`. -/
theorem within_normal (h : Rounding x s e) (hx : 2 ^ (-1022 : Int) ≤ x) :
    Within (1 / 2 ^ 53) 0 x (s * 2 ^ e) := by
  have hfull : 2 ^ 52 * 2 ^ e ≤ x := by
    rcases h.full with rfl | hfull
    · refine le_trans (le_of_eq ?_) hx
      rw [← zpow_natCast (2 : ℚ) 52, ← zpow_add₀ two_ne_zero]
      norm_num
    · exact hfull
  obtain ⟨hlow, hhigh⟩ := abs_sub_le_iff.mp h.abs_sub_le
  constructor <;> linarith

/-- One rounding is off by one part in `2 ^ 53`, or by half of the smallest number. -/
theorem within (h : Rounding x s e) (hx : 0 ≤ x) :
    Within (1 / 2 ^ 53) (2 ^ (-1075 : Int)) x (s * 2 ^ e) := by
  have hhalf : (2 : ℚ) ^ (-1074 : Int) / 2 = 2 ^ (-1075 : Int) := by
    rw [div_eq_mul_inv, ← zpow_neg_one, ← zpow_add₀ two_ne_zero]
    norm_num
  have hpos : (0 : ℚ) < 2 ^ (-1075 : Int) := by positivity
  obtain ⟨hlow, hhigh⟩ := abs_sub_le_iff.mp h.abs_sub_le
  rcases h.full with rfl | hfull
  · rw [hhalf] at hlow hhigh
    constructor <;> linarith
  · constructor <;> linarith

/-- A natural number of places is not rounded. -/
theorem eq_of_places {k : Nat} (h : Rounding x s e) (hk : x / 2 ^ e = k) :
    (s : ℚ) * 2 ^ e = x := by
  have hrounds := h.rounds
  rw [hk] at hrounds
  have hsk : s = k := Nat.le_antisymm (hrounds.mono (roundsTo_natCast k) le_rfl)
    ((roundsTo_natCast k).mono hrounds le_rfl)
  rw [hsk, ← hk, div_mul_cancel₀ _ (by positivity)]

/-- A number with a significand of 53 bits is not off at all. -/
theorem eq_of_dyadic {m : Nat} {j : Int} (h : Rounding (m * 2 ^ j) s e) (hm : m ≤ 2 ^ 53)
    (hj : -1074 ≤ j) : (s : ℚ) * 2 ^ e = m * 2 ^ j := by
  by_cases hej : e ≤ j
  · refine h.eq_of_places (k := m * 2 ^ (j - e).toNat) ?_
    have hpower : (2 : ℚ) ^ j / 2 ^ e = 2 ^ (j - e).toNat := by
      rw [← zpow_sub₀ two_ne_zero, ← zpow_natCast, Int.toNat_of_nonneg (by omega)]
    rw [mul_div_assoc, hpower]
    push_cast
    rfl
  · -- Only the full significand needs one place less than it has.
    have hfull := h.full.resolve_left (by omega)
    have hm' : (m : ℚ) ≤ 2 ^ 53 := by exact_mod_cast hm
    have hnext : (2 : ℚ) ^ (j + 1) ≤ 2 ^ e := zpow_le_zpow_right₀ one_le_two (by omega)
    rw [zpow_add_one₀ two_ne_zero] at hnext
    have hpos : (0 : ℚ) < 2 ^ j := by positivity
    have hupper : (m : ℚ) * 2 ^ j ≤ 2 ^ 53 * 2 ^ j := mul_le_mul_of_nonneg_right hm' hpos.le
    have hvalue : (m : ℚ) * 2 ^ j = 2 ^ 52 * 2 ^ e := by linarith
    refine h.eq_of_places (k := 2 ^ 52) ?_
    rw [hvalue, mul_div_cancel_right₀ _ (by positivity)]
    norm_num

/-- What has no more than 53 bits in front of the point and none behind it is not off. -/
theorem eq_of_natCast {m : Nat} (h : Rounding m s e) (hm : m ≤ 2 ^ 53) :
    (s : ℚ) * 2 ^ e = m := by
  have hzero : (m : ℚ) * 2 ^ (0 : Int) = m := by rw [zpow_zero, mul_one]
  rw [← hzero] at h
  rw [h.eq_of_dyadic hm (by decide), hzero]

/-- A number of the format is not off. -/
theorem eq_magnitude {y : Binary64} (h : Rounding y.magnitude s e) :
    (s : ℚ) * 2 ^ e = y.magnitude :=
  h.eq_of_dyadic (Nat.le_of_lt y.canonical.1) y.canonical.2.1

end Rounding

end NodeView
