import Mathlib.Algebra.Order.Field.Power
import Mathlib.Data.Rat.Cast.Order
import Mathlib.Tactic.GCongr
import Mathlib.Tactic.Linarith
import Mathlib.Tactic.NormNum
import Mathlib.Tactic.Positivity
import Mathlib.Tactic.Ring
import NodeView.Decimal.Binary64
/-!
# NodeView.Proofs.Decimal.Rounding

What a quotient is rounded to, as a rational number.

`Rounding x significand exponent` says that `x` is rounded to `significand · 2 ^ exponent`: the
exponent gives it as many of 53 bits as the smallest exponent allows, and the significand is the
nearest whole number there, from half-way the even one. The conversion of quotients finds just
this (`rounding_ofQuotient?`), and it finds something up to the largest number of the format
(`exists_ofQuotient?`). The relation is monotone (`Rounding.mono`), so that what a whole range of
quotients is rounded to is bounded by what its ends are.
-/

namespace NodeView

/-! ### Whole numbers -/

/-- The whole number nearest to `x` is `k`, which is even if there are two. -/
structure RoundsTo (x : ℚ) (k : Nat) : Prop where
  low : (k : ℚ) - 1 / 2 ≤ x
  high : x ≤ k + 1 / 2
  even : x = k - 1 / 2 ∨ x = k + 1 / 2 → k % 2 = 0

theorem roundsTo_natCast (k : Nat) : RoundsTo k k where
  low := by linarith
  high := by linarith
  even := by
    rintro (h | h)
    · exact absurd h (by linarith)
    · exact absurd h (by linarith)

theorem RoundsTo.mono {x y : ℚ} {k l : Nat} (hx : RoundsTo x k) (hy : RoundsTo y l) (h : x ≤ y) :
    k ≤ l := by
  by_contra hlt
  have hsucc : (l : ℚ) + 1 ≤ k := by exact_mod_cast Nat.lt_of_not_le hlt
  have hlow := hx.low
  have hhigh := hy.high
  -- Both lie half-way between `l` and `k`, so both of these are even.
  have hk : k % 2 = 0 := hx.even (.inl (by linarith))
  have hl : l % 2 = 0 := hy.even (.inr (by linarith))
  have hnext : (k : ℚ) = ((l + 1 : Nat) : ℚ) := by
    push_cast
    linarith
  have := Nat.cast_injective hnext
  omega

/-- How far a rounded quotient is off, in halves of the denominator. -/
theorem roundDiv_bounds (num : Nat) {den : Nat} (hden : 0 < den) :
    2 * (roundDiv num den * den) ≤ 2 * num + den ∧ 2 * num ≤ 2 * (roundDiv num den * den) + den
      ∧ (2 * (roundDiv num den * den) = 2 * num + den ∨ 2 * num = 2 * (roundDiv num den * den) + den
          → roundDiv num den % 2 = 0) := by
  have hquotient := Nat.div_add_mod' num den
  have hremainder := Nat.mod_lt num hden
  simp only [roundDiv]
  generalize num / den = quotient at hquotient ⊢
  generalize num % den = remainder at hquotient hremainder ⊢
  split
  · omega
  · split
    · rw [Nat.add_mul, Nat.one_mul]
      omega
    · -- From half-way, to one more if and only if the quotient is odd.
      rcases Nat.mod_two_eq_zero_or_one quotient with heven | hodd
      · rw [heven, Nat.add_zero]
        omega
      · rw [hodd, Nat.add_mul, Nat.one_mul]
        omega

theorem roundsTo_roundDiv (num : Nat) {den : Nat} (hden : 0 < den) :
    RoundsTo (num / den) (roundDiv num den) := by
  have hpos : (0 : ℚ) < den := Nat.cast_pos.mpr hden
  obtain ⟨hlow, hhigh, heven⟩ := roundDiv_bounds num hden
  generalize roundDiv num den = k at hlow hhigh heven
  have hlow' : 2 * (k * den : ℚ) ≤ 2 * num + den := by exact_mod_cast hlow
  have hhigh' : 2 * (num : ℚ) ≤ 2 * (k * den) + den := by exact_mod_cast hhigh
  constructor
  · rw [le_div_iff₀ hpos]
    linarith
  · rw [div_le_iff₀ hpos]
    linarith
  · rw [div_eq_iff hpos.ne', div_eq_iff hpos.ne']
    rintro (h | h)
    · have htie : 2 * (k * den : ℚ) = 2 * num + den := by linarith
      exact heven (.inl (by exact_mod_cast htie))
    · have htie : 2 * (num : ℚ) = 2 * (k * den) + den := by linarith
      exact heven (.inr (by exact_mod_cast htie))

/-! ### Numbers of the format -/

/-- `x` is rounded to the magnitude `significand · 2 ^ exponent`, were there no largest one. -/
structure Rounding (x : ℚ) (significand : Nat) (exponent : Int) : Prop where
  least : -1074 ≤ exponent
  below : x < 2 ^ 53 * 2 ^ exponent
  full : exponent = -1074 ∨ 2 ^ 52 * 2 ^ exponent ≤ x
  rounds : RoundsTo (x / 2 ^ exponent) significand

namespace Rounding

variable {x y : ℚ} {s t : Nat} {e f : Int}

theorem le_significand (h : Rounding x s e) : s ≤ 2 ^ 53 := by
  have hpos : (0 : ℚ) < 2 ^ e := by positivity
  refine h.rounds.mono (roundsTo_natCast (2 ^ 53)) ?_
  rw [div_le_iff₀ hpos]
  exact_mod_cast h.below.le

theorem significand_le (h : Rounding x s e) : e = -1074 ∨ 2 ^ 52 ≤ s := by
  have hpos : (0 : ℚ) < 2 ^ e := by positivity
  refine h.full.imp_right fun hfull => (roundsTo_natCast (2 ^ 52)).mono h.rounds ?_
  rw [le_div_iff₀ hpos]
  exact_mod_cast hfull

/-- **Rounding is monotone.** Within one exponent it is so on whole numbers; of two exponents the
larger one starts where the smaller one ends. -/
theorem mono (hx : Rounding x s e) (hy : Rounding y t f) (h : x ≤ y) :
    (s : ℚ) * 2 ^ e ≤ t * 2 ^ f := by
  have hs : (s : ℚ) ≤ 2 ^ 53 := by exact_mod_cast hx.le_significand
  rcases lt_trichotomy e f with hlt | rfl | hlt
  · have hfull : (2 ^ 52 : ℚ) ≤ t := by
      exact_mod_cast hy.significand_le.resolve_left (by have := hx.least; omega)
    calc (s : ℚ) * 2 ^ e ≤ 2 ^ 53 * 2 ^ e := by gcongr
      _ = 2 ^ 52 * 2 ^ (e + 1) := by rw [zpow_add_one₀ two_ne_zero]; ring
      _ ≤ t * 2 ^ f := by
        gcongr
        · exact one_le_two
        · omega
  · have hst : s ≤ t := hx.rounds.mono hy.rounds (by gcongr)
    gcongr
  · -- Then `y` would be less than `x`.
    have hfull := hx.full.resolve_left (by have := hy.least; omega)
    have hstep : (2 : ℚ) ^ (f + 1) ≤ 2 ^ e := zpow_le_zpow_right₀ one_le_two (by omega)
    rw [zpow_add_one₀ two_ne_zero] at hstep
    have := hy.below
    linarith

/-- A significand that was rounded up to its limit is halved. -/
theorem canonical_succ (h : Rounding x s e) (hfull : s = 2 ^ 53)
    (hfinite : (s : ℚ) * 2 ^ e < 2 ^ 53 * 2 ^ (971 : Int)) :
    Binary64.Canonical (2 ^ 52) (e + 1) := by
  have hleast := h.least
  have hexponent : e < 971 := by
    refine (zpow_lt_zpow_iff_right₀ (one_lt_two : (1 : ℚ) < 2)).mp ?_
    rw [hfull, Nat.cast_pow, Nat.cast_ofNat] at hfinite
    exact lt_of_mul_lt_mul_left hfinite (by positivity)
  exact ⟨by decide, by omega, by omega, .inr (le_refl _)⟩

theorem canonical (h : Rounding x s e) (hfull : s ≠ 2 ^ 53)
    (hfinite : (s : ℚ) * 2 ^ e < 2 ^ 53 * 2 ^ (971 : Int)) : Binary64.Canonical s e := by
  have hleast := h.least
  have hle := h.le_significand
  have hexponent : e = -1074 ∨ 2 ^ 52 ≤ s ∧ e ≤ 971 := by
    refine h.significand_le.imp_right fun hs => ⟨hs, Int.lt_add_one_iff.mp ?_⟩
    have hs' : (2 : ℚ) ^ 52 ≤ s := by exact_mod_cast hs
    refine (zpow_lt_zpow_iff_right₀ (one_lt_two : (1 : ℚ) < 2)).mp ?_
    refine lt_of_mul_lt_mul_left ?_ (by positivity : (0 : ℚ) ≤ 2 ^ 52)
    calc (2 : ℚ) ^ 52 * 2 ^ e ≤ s * 2 ^ e := by gcongr
      _ < 2 ^ 53 * 2 ^ (971 : Int) := hfinite
      _ = 2 ^ 52 * 2 ^ ((971 : Int) + 1) := by
        rw [zpow_add_one₀ two_ne_zero]
        ring
  exact ⟨by omega, by omega, by omega, by omega⟩

end Rounding

namespace Binary64

/-- The absolute value of a number. -/
def magnitude (x : Binary64) : ℚ := x.significand * 2 ^ x.exponent

theorem magnitude_lt (x : Binary64) : x.magnitude < 2 ^ 53 * 2 ^ (971 : Int) := by
  obtain ⟨hsignificand, -, hexponent, -⟩ := x.canonical
  have hlt : (x.significand : ℚ) < 2 ^ 53 := by exact_mod_cast hsignificand
  calc x.magnitude < 2 ^ 53 * 2 ^ x.exponent := by
        rw [magnitude]
        gcongr
    _ ≤ 2 ^ 53 * 2 ^ (971 : Int) := by
        gcongr
        exact one_le_two

theorem natCast_le_magnitude {x : Binary64} (hexponent : 0 ≤ x.exponent) {n : Nat}
    (h : n ≤ x.significand * 2 ^ x.exponent.toNat) : (n : ℚ) ≤ x.magnitude := by
  rw [magnitude, ← Int.toNat_of_nonneg hexponent, zpow_natCast]
  exact_mod_cast h

/-- The largest number of the format. -/
def largest : Binary64 := ⟨false, 2 ^ 53 - 1, 971, by decide⟩

theorem magnitude_nonneg (x : Binary64) : 0 ≤ x.magnitude := by
  unfold magnitude
  positivity

/-- A number of the format is rounded to itself. -/
theorem rounding_magnitude (x : Binary64) : Rounding x.magnitude x.significand x.exponent := by
  obtain ⟨hsignificand, hleast, -, hfull⟩ := x.canonical
  have hlt : (x.significand : ℚ) < 2 ^ 53 := by exact_mod_cast hsignificand
  refine ⟨hleast, ?_, hfull.imp_right fun hfull => ?_, ?_⟩
  · rw [magnitude]
    gcongr
  · have hfull' : (2 : ℚ) ^ 52 ≤ x.significand := by exact_mod_cast hfull
    rw [magnitude]
    gcongr
  · rw [magnitude, mul_div_cancel_right₀ _ (by positivity)]
    exact roundsTo_natCast _

theorem quotient_pos (x : Binary64) : 0 < x.quotient.2 := by
  unfold quotient
  split
  · exact Nat.one_pos
  · exact Nat.two_pow_pos _

theorem quotient_div (x : Binary64) : (x.quotient.1 : ℚ) / x.quotient.2 = x.magnitude := by
  unfold quotient magnitude
  split
  · rename_i hnonneg
    have hpower : (2 : ℚ) ^ x.exponent = 2 ^ x.exponent.toNat := by
      rw [← zpow_natCast, Int.toNat_of_nonneg hnonneg]
    rw [hpower]
    push_cast
    rw [div_one]
  · rename_i hnegative
    have hpower : (2 : ℚ) ^ x.exponent = (2 ^ (-x.exponent).toNat)⁻¹ := by
      rw [← zpow_natCast, ← zpow_neg, Int.toNat_of_nonneg (by omega), neg_neg]
    rw [hpower, ← div_eq_mul_inv]
    push_cast
    rfl

/-! ### Rounding a quotient -/

theorem scaled_pos (num : Nat) {den : Nat} (hden : 0 < den) (exponent : Int) :
    0 < (scaled num den exponent).2 := by
  unfold scaled
  split
  · exact Nat.mul_pos hden (Nat.two_pow_pos _)
  · exact hden

theorem scaled_div (num den : Nat) (exponent : Int) :
    ((scaled num den exponent).1 : ℚ) / (scaled num den exponent).2
      = num / den / 2 ^ exponent := by
  unfold scaled
  split
  · rename_i hnonneg
    have hpower : (2 : ℚ) ^ exponent = 2 ^ exponent.toNat := by
      rw [← zpow_natCast, Int.toNat_of_nonneg hnonneg]
    rw [hpower, div_div]
    push_cast
    rfl
  · rename_i hnegative
    have hpower : (2 : ℚ) ^ exponent = (2 ^ (-exponent).toNat)⁻¹ := by
      rw [← zpow_natCast, ← zpow_neg, Int.toNat_of_nonneg (by omega), neg_neg]
    rw [hpower, div_inv_eq_mul, div_mul_eq_mul_div]
    push_cast
    rfl

/-- The binary logarithms of its terms bound a quotient. -/
theorem quotient_bounds {num den : Nat} (hnum : 0 < num) (hden : 0 < den) :
    (2 : ℚ) ^ ((num.log2 : Int) - den.log2 - 1) ≤ num / den
      ∧ (num : ℚ) / den < 2 ^ ((num.log2 : Int) - den.log2 + 1) := by
  have hpos : (0 : ℚ) < den := Nat.cast_pos.mpr hden
  have hnumLow : (2 : ℚ) ^ (num.log2 : Int) ≤ num := by
    exact_mod_cast Nat.log2_self_le hnum.ne'
  have hnumHigh : (num : ℚ) < 2 ^ ((num.log2 : Int) + 1) := by
    exact_mod_cast Nat.lt_log2_self
  have hdenLow : (2 : ℚ) ^ (den.log2 : Int) ≤ den := by
    exact_mod_cast Nat.log2_self_le hden.ne'
  have hdenHigh : (den : ℚ) < 2 ^ ((den.log2 : Int) + 1) := by
    exact_mod_cast Nat.lt_log2_self
  constructor
  · rw [sub_sub, zpow_sub₀ two_ne_zero]
    gcongr
  · have hsplit : (num.log2 : Int) - den.log2 + 1 = num.log2 + 1 - den.log2 := by omega
    rw [hsplit, zpow_sub₀ two_ne_zero]
    gcongr

theorem exponentFor_spec {num den : Nat} (hnum : 0 < num) (hden : 0 < den) :
    -1074 ≤ exponentFor num den ∧ (num : ℚ) / den < 2 ^ 53 * 2 ^ exponentFor num den
      ∧ (exponentFor num den = -1074 ∨ 2 ^ 52 * 2 ^ exponentFor num den ≤ (num : ℚ) / den) := by
  obtain ⟨hlow, hhigh⟩ := quotient_bounds hnum hden
  simp only [exponentFor]
  generalize hestimate : max ((num.log2 : Int) - den.log2 - 53) (-1074) = estimate
  have hpos : (0 : ℚ) < (scaled num den estimate).2 := by
    exact_mod_cast scaled_pos num hden estimate
  have htest : 2 ^ 53 * (scaled num den estimate).2 ≤ (scaled num den estimate).1
      ↔ (2 : ℚ) ^ 53 * 2 ^ estimate ≤ num / den := by
    rw [← le_div_iff₀ (by positivity), ← scaled_div, le_div_iff₀ hpos]
    exact_mod_cast Iff.rfl
  split
  · rename_i h
    refine ⟨by omega, ?_, .inr ?_⟩
    · calc (num : ℚ) / den < 2 ^ ((num.log2 : Int) - den.log2 + 1) := hhigh
        _ ≤ 2 ^ (53 + (estimate + 1)) := zpow_le_zpow_right₀ one_le_two (by omega)
        _ = 2 ^ 53 * 2 ^ (estimate + 1) := zpow_add₀ two_ne_zero _ _
    · have := htest.mp h
      rw [zpow_add_one₀ two_ne_zero]
      linarith
  · rename_i h
    refine ⟨by omega, lt_of_not_ge fun hge => h (htest.mpr hge), ?_⟩
    rcases (by omega : estimate = -1074 ∨ estimate = num.log2 - den.log2 - 53) with h | h
    · exact .inl h
    · refine .inr ?_
      calc (2 : ℚ) ^ 52 * 2 ^ estimate = 2 ^ (52 + estimate) := (zpow_add₀ two_ne_zero 52 _).symm
        _ = 2 ^ ((num.log2 : Int) - den.log2 - 1) := by congr 1; omega
        _ ≤ num / den := hlow

theorem rounding_exponentFor {num den : Nat} (hnum : 0 < num) (hden : 0 < den) :
    Rounding (num / den)
      (roundDiv (scaled num den (exponentFor num den)).1 (scaled num den (exponentFor num den)).2)
      (exponentFor num den) := by
  obtain ⟨hleast, hbelow, hfull⟩ := exponentFor_spec hnum hden
  refine ⟨hleast, hbelow, hfull, ?_⟩
  rw [← scaled_div]
  exact roundsTo_roundDiv _ (scaled_pos num hden _)

/-- What a whole number is rounded to can be computed. -/
theorem rounding_natCast {n significand : Nat} {exponent : Int} (hn : 0 < n)
    (hexponent : exponentFor n 1 = exponent)
    (hsignificand : roundDiv (scaled n 1 exponent).1 (scaled n 1 exponent).2 = significand) :
    Rounding n significand exponent := by
  have hrounding := rounding_exponentFor hn Nat.one_pos
  rwa [hexponent, hsignificand, Nat.cast_one, div_one] at hrounding

theorem ofParts?_eq_some {negative : Bool} {significand : Nat} {exponent : Int} {x : Binary64}
    (h : ofParts? negative significand exponent = some x) :
    x.negative = negative ∧ x.magnitude = significand * 2 ^ exponent := by
  unfold ofParts? at h
  split at h
  · cases h
    exact ⟨rfl, rfl⟩
  · cases h

/-- Zero has the smallest exponent. -/
theorem rounding_zero : Rounding 0 0 (-1074) where
  least := le_refl _
  below := by positivity
  full := .inl rfl
  rounds := by
    rw [zero_div]
    exact_mod_cast roundsTo_natCast 0

/-- A quotient is converted to what it is rounded to. -/
theorem rounding_ofQuotient? {negative : Bool} {num den : Nat} {x : Binary64} (hden : 0 < den)
    (h : ofQuotient? negative num den = some x) :
    x.negative = negative
      ∧ ∃ significand exponent, Rounding (num / den) significand exponent
          ∧ x.magnitude = significand * 2 ^ exponent := by
  unfold ofQuotient? at h
  split at h
  · rename_i hzero
    cases h
    refine ⟨rfl, 0, -1074, ?_, rfl⟩
    rw [hzero, Nat.cast_zero, zero_div]
    exact rounding_zero
  · rename_i hnum
    have hrounding := rounding_exponentFor (Nat.pos_of_ne_zero hnum) hden
    simp only at h
    split at h
    · rename_i hfull
      obtain ⟨hnegative, hmagnitude⟩ := ofParts?_eq_some h
      refine ⟨hnegative, _, _, hrounding, ?_⟩
      rw [hmagnitude, hfull, zpow_add_one₀ two_ne_zero]
      push_cast
      ring
    · obtain ⟨hnegative, hmagnitude⟩ := ofParts?_eq_some h
      exact ⟨hnegative, _, _, hrounding, hmagnitude⟩

/-- A quotient is converted if it is no larger than some number of the format. -/
theorem exists_ofQuotient? {num den : Nat} (hden : 0 < den) {y : Binary64}
    (hle : (num : ℚ) / den ≤ y.magnitude) (negative : Bool) :
    ∃ x, ofQuotient? negative num den = some x := by
  unfold ofQuotient?
  split
  · exact ⟨_, rfl⟩
  · rename_i hnum
    have hrounding := rounding_exponentFor (Nat.pos_of_ne_zero hnum) hden
    have hlt := lt_of_le_of_lt (hrounding.mono y.rounding_magnitude hle) y.magnitude_lt
    simp only
    split
    · rename_i hfull
      exact ⟨_, dif_pos (hrounding.canonical_succ hfull hlt)⟩
    · rename_i hfull
      exact ⟨_, dif_pos (hrounding.canonical hfull hlt)⟩

/-- A natural number is converted if it is no larger than the largest number of the format. -/
theorem exists_ofQuotient?_one {n : Nat}
    (h : n ≤ largest.significand * 2 ^ largest.exponent.toNat) (negative : Bool) :
    ∃ x, ofQuotient? negative n 1 = some x ∧ x.negative = negative
      ∧ ∃ significand exponent, Rounding n significand exponent
          ∧ x.magnitude = significand * 2 ^ exponent := by
  have hone : (n : ℚ) / (1 : Nat) = n := by rw [Nat.cast_one, div_one]
  have hle : (n : ℚ) / (1 : Nat) ≤ largest.magnitude :=
    hone.le.trans (natCast_le_magnitude (by decide) h)
  obtain ⟨x, hx⟩ := exists_ofQuotient? Nat.one_pos hle negative
  have hrounding := rounding_ofQuotient? Nat.one_pos hx
  rw [hone] at hrounding
  exact ⟨x, hx, hrounding⟩

section

variable {x y z : Binary64}

theorem mul_quotients :
    ((x.quotient.1 * y.quotient.1 : Nat) : ℚ) / (x.quotient.2 * y.quotient.2 : Nat)
      = x.magnitude * y.magnitude := by
  rw [Nat.cast_mul, Nat.cast_mul, mul_div_mul_comm, x.quotient_div, y.quotient_div]

theorem div_quotients :
    ((x.quotient.1 * y.quotient.2 : Nat) : ℚ) / (x.quotient.2 * y.quotient.1 : Nat)
      = x.magnitude / y.magnitude := by
  rw [Nat.cast_mul, Nat.cast_mul, ← x.quotient_div, ← y.quotient_div, div_div_div_eq]

/-- A product is what the product of the magnitudes is rounded to. -/
theorem rounding_mul? (h : x.mul? y = some z) :
    z.negative = (x.negative != y.negative)
      ∧ ∃ significand exponent, Rounding (x.magnitude * y.magnitude) significand exponent
          ∧ z.magnitude = significand * 2 ^ exponent := by
  rw [← mul_quotients]
  exact rounding_ofQuotient? (Nat.mul_pos x.quotient_pos y.quotient_pos) h

/-- A product is a number of the format if it is no larger than some of them. -/
theorem exists_mul? (h : x.magnitude * y.magnitude ≤ z.magnitude) :
    ∃ product, x.mul? y = some product := by
  rw [← mul_quotients] at h
  exact exists_ofQuotient? (Nat.mul_pos x.quotient_pos y.quotient_pos) h _

theorem quotient_num_pos (hy : 0 < y.magnitude) : 0 < y.quotient.1 := by
  rw [← y.quotient_div] at hy
  refine Nat.pos_of_ne_zero fun hzero => ?_
  rw [hzero, Nat.cast_zero, zero_div] at hy
  exact lt_irrefl _ hy

/-- A quotient is what the quotient of the magnitudes is rounded to. -/
theorem rounding_div? (hy : 0 < y.magnitude) (h : x.div? y = some z) :
    z.negative = (x.negative != y.negative)
      ∧ ∃ significand exponent, Rounding (x.magnitude / y.magnitude) significand exponent
          ∧ z.magnitude = significand * 2 ^ exponent := by
  rw [← div_quotients]
  exact rounding_ofQuotient? (Nat.mul_pos x.quotient_pos (quotient_num_pos hy)) h

/-- A quotient is a number of the format if it is no larger than some of them. -/
theorem exists_div? (hy : 0 < y.magnitude) (h : x.magnitude / y.magnitude ≤ z.magnitude) :
    ∃ quotient, x.div? y = some quotient := by
  rw [← div_quotients] at h
  exact exists_ofQuotient? (Nat.mul_pos x.quotient_pos (quotient_num_pos hy)) h _

end

/-! ### The number that a number of the format is -/

/-- The value of a number. -/
def value (x : Binary64) : ℚ := if x.negative then -x.magnitude else x.magnitude

theorem abs_value (x : Binary64) : |x.value| = x.magnitude := by
  unfold value
  split
  · rw [abs_neg, abs_of_nonneg x.magnitude_nonneg]
  · exact abs_of_nonneg x.magnitude_nonneg

end Binary64

end NodeView
