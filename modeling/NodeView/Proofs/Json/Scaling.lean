import NodeView.Proofs.Json.Gathering
/-!
# NodeView.Proofs.Json.Scaling

What a significand is scaled to.

The significand, the power of ten and the result are each rounded, so the result is within a few
parts in `2 ^ 53` of what it stands for, or within the smallest numbers of the format
(`scale_within`). Powers of ten up to `10 ^ 22` and significands of 53 bits are not rounded, so
there the result is rounded once. It is exact if it can be (`scale_exact`), and it is not whole
unless it is exact (`scale_whole`): a quotient by a power of ten is too far from all other whole
numbers.
-/

namespace NodeView.Json

open Binary64 (powerOfTen)

/-! ### Parts of the scaling -/

theorem tiny_half : (2 : ℚ) ^ (-1075 : Int) = 2 ^ (-1074 : Int) / 2 := by
  rw [eq_div_iff two_ne_zero, ← zpow_add_one₀ two_ne_zero]
  norm_num

theorem twice_tiny : (2 : ℚ) ^ (-1073 : Int) = 2 ^ (-1074 : Int) * 2 := by
  rw [← zpow_add_one₀ two_ne_zero]
  norm_num

theorem maxPower_pos : 0 < maxPower := by decide

theorem two_pow_le_maxPower : (2 : ℚ) ^ 1023 ≤ 10 ^ maxPower := by
  have h : 2 ^ 1023 ≤ 10 ^ maxPower := by decide +kernel
  have hcast : ((2 ^ 1023 : Nat) : ℚ) ≤ (10 ^ maxPower : Nat) := Nat.cast_le.mpr h
  simpa only [Nat.cast_pow, Nat.cast_ofNat] using hcast

theorem normal_le_one : (2 : ℚ) ^ (-1022 : Int) ≤ 1 :=
  zpow_le_one_of_nonpos₀ one_le_two (by decide)

theorem powerOfTen_within {k : Nat} (hk : k ≤ maxPower) :
    Within (1 / 2 ^ 53) 0 (10 ^ k) (powerOfTen k).magnitude := by
  obtain ⟨-, significand, exponent, hrounding, hmagnitude⟩ := rounding_powerOfTen hk
  rw [hmagnitude]
  exact hrounding.within_normal (le_trans normal_le_one (one_le_pow₀ (by norm_num)))

/-- Powers of ten up to `10 ^ 22` are numbers of the format. -/
theorem powerOfTen_exact {k : Nat} (hk : k ≤ 22) : (powerOfTen k).magnitude = 10 ^ k := by
  obtain ⟨-, significand, exponent, hrounding, hmagnitude⟩ :=
    rounding_powerOfTen (k := k) (Nat.le_trans hk (by decide))
  have hsplit : (10 : ℚ) ^ k = ((5 ^ k : Nat) : ℚ) * 2 ^ (k : Int) := by
    rw [zpow_natCast]
    push_cast
    rw [← mul_pow]
    norm_num
  have hfits : 5 ^ k ≤ 2 ^ 53 := Nat.le_trans (Nat.pow_le_pow_right (by decide) hk) (by decide)
  rw [hsplit] at hrounding ⊢
  rw [hmagnitude, hrounding.eq_of_dyadic hfits (by omega)]

/-- The conversion of a significand, which is exact up to 53 bits. -/
theorem exists_start (negative : Bool) {n : Nat} (hn : n < 2 ^ 64) :
    ∃ start, Binary64.ofQuotient? negative n 1 = some start ∧ start.negative = negative
      ∧ Within (1 / 2 ^ 53) 0 n start.magnitude ∧ (n ≤ 2 ^ 53 → start.magnitude = n) := by
  obtain ⟨start, hstart, hnegative, significand, exponent, hrounding, hmagnitude⟩ :=
    rounding_significand negative hn
  refine ⟨start, hstart, hnegative, ?_, fun hfits => ?_⟩
  · rw [hmagnitude]
    rcases Nat.eq_zero_or_pos n with rfl | hpos
    · rw [hrounding.eq_of_natCast (by decide)]
      exact (Within.refl _).mono (by simp) (by norm_num) le_rfl
    · refine hrounding.within_normal (le_trans normal_le_one ?_)
      exact_mod_cast hpos
  · rw [hmagnitude, hrounding.eq_of_natCast hfits]

section

variable {x y z : Binary64} {k : Nat}

theorem isZero_iff : x.isZero = true ↔ x.magnitude = 0 := by
  rw [Binary64.isZero, decide_eq_true_eq, Binary64.magnitude, mul_eq_zero, Nat.cast_eq_zero]
  exact ⟨.inl, fun h => h.resolve_right (by positivity)⟩

/-- A product by a power of ten keeps the sign and is rounded. -/
theorem rounding_up (hmax : k ≤ maxPower) (h : x.mul? (powerOfTen k) = some z) :
    z.negative = x.negative
      ∧ ∃ significand exponent,
        Rounding (x.magnitude * (powerOfTen k).magnitude) significand exponent
          ∧ z.magnitude = significand * 2 ^ exponent := by
  obtain ⟨hsign, hrounding⟩ := Binary64.rounding_mul? h
  rw [(rounding_powerOfTen hmax).1, Bool.bne_false] at hsign
  exact ⟨hsign, hrounding⟩

variable (hk : 0 < k) (hmax : k ≤ maxPower)
include hk hmax

theorem powerOfTen_pos : 0 < (powerOfTen k).magnitude :=
  lt_of_lt_of_le (by norm_num) (ten_le_magnitude_powerOfTen hk hmax)

/-- A quotient by a power of ten keeps the sign and is rounded. -/
theorem rounding_down (h : x.div? (powerOfTen k) = some z) :
    z.negative = x.negative
      ∧ ∃ significand exponent,
        Rounding (x.magnitude / (powerOfTen k).magnitude) significand exponent
          ∧ z.magnitude = significand * 2 ^ exponent := by
  obtain ⟨hsign, hrounding⟩ := Binary64.rounding_div? (powerOfTen_pos hk hmax) h
  rw [(rounding_powerOfTen hmax).1, Bool.bne_false] at hsign
  exact ⟨hsign, hrounding⟩

/-- A division by a power of ten keeps the sign and makes no number larger. -/
theorem div_le (h : x.div? (powerOfTen k) = some z) :
    z.negative = x.negative ∧ z.magnitude ≤ x.magnitude := by
  obtain ⟨hsign, significand, exponent, hrounding, hmagnitude⟩ := rounding_down hk hmax h
  refine ⟨hsign, ?_⟩
  rw [hmagnitude]
  refine hrounding.mono x.rounding_magnitude (div_le_self x.magnitude_nonneg ?_)
  exact le_trans (by norm_num) (ten_le_magnitude_powerOfTen hk hmax)

/-- A division by a power of ten adds little to the error. -/
theorem div_within {a α t : ℚ} (h : x.div? (powerOfTen k) = some z)
    (hx : Within a α t x.magnitude) (ht : 0 ≤ t) (ha : 0 ≤ a) (ha' : a ≤ 1 / 2 ^ 50) (hα : 0 ≤ α)
    (hα' : α ≤ 2 ^ (-1074 : Int)) :
    Within (a + 4 / 2 ^ 53) (2 ^ (-1074 : Int)) (t / 10 ^ k) z.magnitude := by
  obtain ⟨-, significand, exponent, hrounding, hmagnitude⟩ := rounding_down hk hmax h
  have hquotient := hx.div (powerOfTen_within hmax) ht (by positivity) x.magnitude_nonneg ha hα
    (by norm_num) (by norm_num)
  have hrounded := hrounding.within (div_nonneg x.magnitude_nonneg (Binary64.magnitude_nonneg _))
  have hten : (10 : ℚ) ≤ 10 ^ k := le_self_pow₀ (by norm_num) (by omega)
  have hshrunk : 2 * α / 10 ^ k ≤ 2 ^ (-1074 : Int) / 5 := by
    calc 2 * α / 10 ^ k ≤ 2 * α / 10 := by gcongr
      _ ≤ 2 ^ (-1074 : Int) / 5 := by linarith
  rw [hmagnitude]
  refine (hquotient.trans hrounded (by positivity) (by positivity) (by positivity) (by norm_num)
    (by norm_num)).mono (by positivity) ?_ ?_
  · norm_num at ha' ⊢
    linarith
  · have hpos : (0 : ℚ) < 2 ^ (-1074 : Int) := by positivity
    rw [tiny_half]
    generalize (2 : ℚ) ^ (-1074 : Int) = tiny at *
    norm_num
    linarith

end

/-! ### Down -/

/-- Divisions by the largest power of ten keep the sign and make no number larger. -/
theorem divideTimes_le {times : Nat} {x y : Binary64}
    (h : divideTimes (powerOfTen maxPower) times x = some y) :
    y.negative = x.negative ∧ y.magnitude ≤ x.magnitude := by
  induction times generalizing x with
  | zero =>
      cases h
      exact ⟨rfl, le_rfl⟩
  | succ times ih =>
      unfold divideTimes at h
      split at h
      · cases h
        exact ⟨rfl, le_rfl⟩
      · split at h
        · cases h
        · rename_i z hz
          obtain ⟨hsign, hle⟩ := div_le maxPower_pos (Nat.le_refl _) hz
          obtain ⟨hsign', hle'⟩ := ih h
          exact ⟨hsign'.trans hsign, hle'.trans hle⟩

/-- The first division, unless the number is zero. -/
theorem divideTimes_succ {times : Nat} {divisor x y : Binary64} (hx : x.magnitude ≠ 0)
    (h : divideTimes divisor (times + 1) x = some y) :
    ∃ z, x.div? divisor = some z ∧ divideTimes divisor times z = some y := by
  unfold divideTimes at h
  split at h
  · rename_i hzero
    exact absurd (isZero_iff.mp hzero) hx
  · split at h
    · cases h
    · rename_i z hz
      exact ⟨z, hz, h⟩

/-- How many divisions there are, and the last one. -/
theorem scaleDown_eq_some {x z : Binary64} {k : Nat} (h : scaleDown x k = some z) :
    ∃ y, divideTimes (powerOfTen maxPower) ((k - 1) / maxPower) x = some y
      ∧ y.div? (powerOfTen (k - maxPower * ((k - 1) / maxPower))) = some z := by
  unfold scaleDown at h
  simp only at h
  split at h
  · cases h
  · rename_i y hy
    exact ⟨y, hy, h⟩

/-- The power of ten of the last division. -/
theorem last_power {k : Nat} (hk : 0 < k) :
    0 < k - maxPower * ((k - 1) / maxPower) ∧ k - maxPower * ((k - 1) / maxPower) ≤ maxPower := by
  unfold maxPower
  omega

/-- A power of ten of the format takes one division. -/
theorem scaleDown_one (x : Binary64) {k : Nat} (hk : k ≤ maxPower) :
    scaleDown x k = x.div? (powerOfTen k) := by
  have htimes : (k - 1) / maxPower = 0 := Nat.div_eq_of_lt (by unfold maxPower at *; omega)
  simp only [scaleDown, htimes, divideTimes, Nat.mul_zero, Nat.sub_zero]

theorem scaleDown_le {x z : Binary64} {k : Nat} (hk : 0 < k) (h : scaleDown x k = some z) :
    z.negative = x.negative ∧ z.magnitude ≤ x.magnitude := by
  obtain ⟨y, hy, hz⟩ := scaleDown_eq_some h
  obtain ⟨hsign, hle⟩ := divideTimes_le hy
  obtain ⟨hsign', hle'⟩ := div_le (last_power hk).1 (last_power hk).2 hz
  exact ⟨hsign'.trans hsign, hle'.trans hle⟩

/-- Two divisions by the largest power of ten leave next to nothing of a significand. -/
theorem quotient_far {n k : Nat} (hn : n < 2 ^ 64) (hk : 2 * maxPower ≤ k) :
    (n : ℚ) / 10 ^ k ≤ 2 ^ (-1076 : Int) := by
  have hn' : (n : ℚ) ≤ 2 ^ 64 := by exact_mod_cast hn.le
  have hpower : (2 : ℚ) ^ 1023 * 2 ^ 1023 ≤ 10 ^ k :=
    calc (2 : ℚ) ^ 1023 * 2 ^ 1023 ≤ 10 ^ maxPower * 10 ^ maxPower := by
          gcongr
          · exact two_pow_le_maxPower
          · exact two_pow_le_maxPower
      _ = 10 ^ (2 * maxPower) := by rw [← pow_add, two_mul]
      _ ≤ 10 ^ k := pow_le_pow_right₀ (by norm_num) hk
  calc (n : ℚ) / 10 ^ k ≤ 2 ^ 64 / (2 ^ 1023 * 2 ^ 1023) := by gcongr
    _ = 2 ^ (-1982 : Int) := by
        rw [← pow_add, ← zpow_natCast, ← zpow_natCast, ← zpow_sub₀ two_ne_zero]
        rfl
    _ ≤ 2 ^ (-1076 : Int) := zpow_le_zpow_right₀ one_le_two (by decide)

/-- What is divided more often than twice by the largest power of ten is next to nothing. -/
theorem scaleDown_far {x z : Binary64} {n k : Nat} (hn : n < 2 ^ 64) (hpos : x.magnitude ≠ 0)
    (hx : Within (1 / 2 ^ 53) 0 n x.magnitude) (hk : 2 * maxPower < k)
    (h : scaleDown x k = some z) : z.magnitude ≤ 2 ^ (-1073 : Int) := by
  obtain ⟨y, hy, hz⟩ := scaleDown_eq_some h
  obtain ⟨times, htimes⟩ : ∃ times, (k - 1) / maxPower = times + 1 + 1 := by
    refine ⟨(k - 1) / maxPower - 2, ?_⟩
    unfold maxPower at hk ⊢
    omega
  have hlast := last_power (k := k) (by omega)
  refine le_trans (div_le hlast.1 hlast.2 hz).2 ?_
  rw [htimes] at hy
  obtain ⟨first, hfirst, hy⟩ := divideTimes_succ hpos hy
  have hnear := div_within maxPower_pos (Nat.le_refl _) hfirst hx (by positivity) (by positivity)
    (by norm_num) le_rfl (by positivity)
  -- Two of the divisions are enough, and the others make no number larger.
  by_cases hzero : first.magnitude = 0
  · refine le_trans (divideTimes_le hy).2 ?_
    rw [hzero]
    positivity
  · obtain ⟨second, hsecond, hy⟩ := divideTimes_succ hzero hy
    have hnear' := div_within maxPower_pos (Nat.le_refl _) hsecond hnear (by positivity)
      (by positivity) (by norm_num) (by positivity) le_rfl
    refine le_trans (divideTimes_le hy).2 (le_trans hnear'.high ?_)
    have hsmall := quotient_far hn (Nat.le_refl (2 * maxPower))
    rw [two_mul, pow_add, ← div_div] at hsmall
    have hquarter : (2 : ℚ) ^ (-1076 : Int) ≤ 2 ^ (-1075 : Int) :=
      zpow_le_zpow_right₀ one_le_two (by decide)
    rw [tiny_half] at hquarter
    have hpos : (0 : ℚ) ≤ n / 10 ^ maxPower / 10 ^ maxPower := by positivity
    rw [twice_tiny]
    generalize (2 : ℚ) ^ (-1074 : Int) = tiny at *
    generalize (n : ℚ) / 10 ^ maxPower / 10 ^ maxPower = t at *
    norm_num
    linarith

/-- Scaling down is within a few parts in `2 ^ 53`, or within the smallest numbers. -/
theorem scaleDown_within {x z : Binary64} {n k : Nat} (hn : n < 2 ^ 64)
    (hx : Within (1 / 2 ^ 53) 0 n x.magnitude) (hk : 0 < k) (h : scaleDown x k = some z) :
    Within (9 / 2 ^ 53) (2 ^ (-1073 : Int)) (n / 10 ^ k) z.magnitude := by
  have hgrow : (2 : ℚ) ^ (-1074 : Int) ≤ 2 ^ (-1073 : Int) :=
    zpow_le_zpow_right₀ one_le_two (by decide)
  by_cases hzero : x.magnitude = 0
  · rw [hzero] at hx
    have hn0 : (n : ℚ) = 0 := hx.eq_zero (by positivity) (by norm_num)
    have hz : z.magnitude = 0 :=
      le_antisymm (hzero ▸ (scaleDown_le hk h).2) z.magnitude_nonneg
    rw [hn0, zero_div, hz]
    exact (Within.refl 0).mono le_rfl (by positivity) (by positivity)
  · by_cases hfar : 2 * maxPower < k
    · have hsmall : (n : ℚ) / 10 ^ k ≤ 2 ^ (-1073 : Int) :=
        (quotient_far hn hfar.le).trans (zpow_le_zpow_right₀ one_le_two (by decide))
      have hpos : (0 : ℚ) ≤ n / 10 ^ k := by positivity
      have hz := scaleDown_far hn hzero hx hfar h
      have hz' := z.magnitude_nonneg
      constructor <;> linarith
    · -- What is left are one division or two.
      by_cases hone : k ≤ maxPower
      · rw [scaleDown_one x hone] at h
        exact (div_within hk hone h hx (by positivity) (by positivity) (by norm_num) le_rfl
          (by positivity)).mono (by positivity) (by norm_num) hgrow
      · obtain ⟨y, hy, hz⟩ := scaleDown_eq_some h
        have hlast := last_power hk
        have htimes : (k - 1) / maxPower = 0 + 1 := by
          unfold maxPower at hfar hone ⊢
          omega
        rw [htimes] at hy hz hlast
        obtain ⟨first, hfirst, hy⟩ := divideTimes_succ hzero hy
        cases hy
        have hnear := div_within maxPower_pos (Nat.le_refl _) hfirst hx (by positivity)
          (by positivity) (by norm_num) le_rfl (by positivity)
        have hnear' := div_within hlast.1 hlast.2 hz hnear (by positivity) (by positivity)
          (by norm_num) (by positivity) le_rfl
        rw [div_div, ← pow_add, show maxPower + (k - maxPower * (0 + 1)) = k by omega] at hnear'
        exact hnear'.mono (by positivity) (by norm_num) hgrow

theorem scaleDown_zero {x : Binary64} (hx : x.magnitude = 0) {k : Nat} (hk : 0 < k) :
    ∃ z, scaleDown x k = some z := by
  have htimes : ∀ times, divideTimes (powerOfTen maxPower) times x = some x := by
    intro times
    cases times with
    | zero => rfl
    | succ times => rw [divideTimes, if_pos (isZero_iff.mpr hx)]
  have hlast := last_power hk
  simp only [scaleDown, htimes]
  refine Binary64.exists_div? (z := x) (powerOfTen_pos hlast.1 hlast.2) ?_
  rw [hx, zero_div]

/-! ### Up and down -/

theorem zpow_of_neg {E : Int} (hE : E < 0) (n : ℚ) : n * 10 ^ E = n / 10 ^ E.natAbs := by
  rw [div_eq_mul_inv, ← zpow_natCast, ← zpow_neg, show -(E.natAbs : Int) = E by omega]

theorem zpow_of_nonneg {E : Int} (hE : ¬ E < 0) (n : ℚ) : n * 10 ^ E = n * 10 ^ E.natAbs := by
  rw [← zpow_natCast, show (E.natAbs : Int) = E by omega]

/-- **What a significand is scaled to keeps its sign, and it is within a few parts in `2 ^ 53` of
what it stands for, or within the smallest numbers.** -/
theorem scale_within {negative : Bool} {n : Nat} {E : Int} {number : Number} (hn : n < 2 ^ 64)
    (h : scale negative n E = .ok number) :
    ∃ x, number = .float x ∧ x.negative = negative
      ∧ Within (9 / 2 ^ 53) (2 ^ (-1073 : Int)) (n * 10 ^ E) x.magnitude := by
  obtain ⟨start, hstart, hsign, hnear, -⟩ := exists_start negative hn
  simp only [scale, hstart, Option.getD_some] at h
  split at h
  · cases h
  · rename_i x hx
    cases h
    refine ⟨x, rfl, ?_⟩
    split at hx
    · rename_i hE
      have hk : 0 < E.natAbs := by omega
      rw [zpow_of_neg hE]
      exact ⟨(scaleDown_le hk hx).1.trans hsign, scaleDown_within hn hnear hk hx⟩
    · rename_i hE
      rw [zpow_of_nonneg hE]
      split at hx
      · rename_i hmax
        have hk : E.natAbs ≤ maxPower := by omega
        obtain ⟨hsign', significand, exponent, hrounding, hmagnitude⟩ := rounding_up hk hx
        have hproduct := hnear.mul (powerOfTen_within hk) (by positivity) (by positivity)
          start.magnitude_nonneg (Binary64.magnitude_nonneg _) (by norm_num) (by norm_num)
          (by norm_num)
        have hrounded := hrounding.within
          (mul_nonneg start.magnitude_nonneg (Binary64.magnitude_nonneg _))
        rw [hmagnitude]
        refine ⟨hsign'.trans hsign, (hproduct.trans hrounded (by positivity) (by norm_num) le_rfl
          (by norm_num) (by norm_num)).mono (by positivity) (by norm_num) ?_⟩
        rw [mul_zero, add_zero, zero_add]
        exact zpow_le_zpow_right₀ one_le_two (by decide)
      · split at hx
        · rename_i hzero
          cases hx
          rw [isZero_iff.mp hzero] at hnear ⊢
          rw [hnear.eq_zero (by positivity) (by norm_num), zero_mul]
          exact ⟨hsign, (Within.refl 0).mono le_rfl (by positivity) (by positivity)⟩
        · cases hx

/-- Zero is scaled to zero. -/
theorem scale_zero (negative : Bool) (E : Int) :
    ∃ x, scale negative 0 E = .ok (.float x) ∧ x.negative = negative ∧ x.magnitude = 0 := by
  obtain ⟨start, hstart, hsign, -, hexact⟩ := exists_start negative (n := 0) (by decide)
  have hzero : start.magnitude = 0 := by exact_mod_cast hexact (Nat.zero_le _)
  simp only [scale, hstart, Option.getD_some]
  by_cases hE : E < 0
  · have hk : 0 < E.natAbs := by omega
    obtain ⟨z, hz⟩ := scaleDown_zero hzero hk
    obtain ⟨hsign', hle⟩ := scaleDown_le hk hz
    simp only [if_pos hE, hz]
    exact ⟨z, rfl, hsign'.trans hsign, le_antisymm (hzero ▸ hle) z.magnitude_nonneg⟩
  · by_cases hmax : E ≤ maxPower
    · have hk : E.natAbs ≤ maxPower := by omega
      obtain ⟨z, hz⟩ := Binary64.exists_mul? (x := start) (y := powerOfTen E.natAbs) (z := start)
        (by rw [hzero, zero_mul])
      obtain ⟨hsign', significand, exponent, hrounding, hmagnitude⟩ := rounding_up hk hz
      rw [hzero, zero_mul] at hrounding
      have hround : Rounding (0 : Nat) significand exponent := by exact_mod_cast hrounding
      simp only [if_neg hE, if_pos hmax, hz]
      refine ⟨z, rfl, hsign'.trans hsign, ?_⟩
      rw [hmagnitude, hround.eq_of_natCast (by decide), Nat.cast_zero]
    · simp only [if_neg hE, if_neg hmax, if_pos (isZero_iff.mpr hzero)]
      exact ⟨start, rfl, hsign, hzero⟩

/-! ### Without rounding the parts -/

/-- Neither 53 bits nor a power of ten up to `10 ^ 22` is rounded. -/
theorem scale_fast (negative : Bool) {n : Nat} (hn : n ≤ 2 ^ 53) {E : Int} (hE : E.natAbs ≤ 22) :
    ∃ start : Binary64, start.negative = negative ∧ start.magnitude = n
      ∧ ∀ x, scale negative n E = .ok (.float x)
        ↔ (if E < 0 then start.div? (powerOfTen E.natAbs)
            else start.mul? (powerOfTen E.natAbs)) = some x := by
  obtain ⟨start, hstart, hsign, -, hexact⟩ := exists_start negative
    (Nat.lt_of_le_of_lt hn (by decide))
  have hmax : E.natAbs ≤ maxPower := Nat.le_trans hE (by decide)
  have hup : E ≤ maxPower := by omega
  refine ⟨start, hsign, hexact hn, fun x => ?_⟩
  simp only [scale, hstart, Option.getD_some, scaleDown_one start hmax, if_pos hup]
  generalize (if E < 0 then start.div? (powerOfTen E.natAbs)
    else start.mul? (powerOfTen E.natAbs)) = result
  cases result <;> simp

/-- There the result is rounded once. -/
theorem scale_rounds {negative : Bool} {n : Nat} {E : Int} {x : Binary64} (hn : n ≤ 2 ^ 53)
    (hE : E.natAbs ≤ 22) (h : scale negative n E = .ok (.float x)) :
    ∃ significand exponent, Rounding (n * 10 ^ E) significand exponent
      ∧ x.magnitude = significand * 2 ^ exponent := by
  obtain ⟨start, -, hstart, hscale⟩ := scale_fast negative hn hE
  have hx := (hscale x).mp h
  split at hx
  · rename_i hneg
    obtain ⟨-, hrounding⟩ := Binary64.rounding_div?
      (powerOfTen_pos (by omega) (Nat.le_trans hE (by decide))) hx
    rwa [hstart, powerOfTen_exact hE, ← zpow_of_neg hneg] at hrounding
  · rename_i hneg
    obtain ⟨-, hrounding⟩ := Binary64.rounding_mul? hx
    rwa [hstart, powerOfTen_exact hE, ← zpow_of_nonneg hneg] at hrounding

/-- There is a result if it is no larger than some number of the format. -/
theorem exists_scale (negative : Bool) {n : Nat} {E : Int} {y : Binary64} (hn : n ≤ 2 ^ 53)
    (hE : E.natAbs ≤ 22) (hy : n * 10 ^ E ≤ y.magnitude) :
    ∃ x, scale negative n E = .ok (.float x) := by
  obtain ⟨start, -, hstart, hscale⟩ := scale_fast negative hn hE
  simp only [hscale]
  split
  · rename_i hneg
    refine Binary64.exists_div? (z := y) (powerOfTen_pos (by omega)
      (Nat.le_trans hE (by decide))) ?_
    rwa [hstart, powerOfTen_exact hE, ← zpow_of_neg hneg]
  · rename_i hneg
    refine Binary64.exists_mul? (z := y) ?_
    rwa [hstart, powerOfTen_exact hE, ← zpow_of_nonneg hneg]

/-! ### Whole numbers -/

/-- A quotient by a power of ten is not rounded to any other whole number. -/
theorem eq_of_rounding_quotient {n k m significand : Nat} {exponent : Int} (hn : n ≤ 2 ^ 53)
    (hpos : 0 < n) (hk : 0 < k) (hk' : k ≤ 22)
    (h : Rounding (n / 10 ^ k) significand exponent) (hm : (significand : ℚ) * 2 ^ exponent = m) :
    n = m * 10 ^ k := by
  have hten : (0 : ℚ) < 10 ^ k := by positivity
  have hnormal : (2 : ℚ) ^ (-1022 : Int) ≤ n / 10 ^ k := by
    have hn' : (1 : ℚ) ≤ n := by exact_mod_cast hpos
    calc (2 : ℚ) ^ (-1022 : Int) ≤ 2 ^ (-88 : Int) := zpow_le_zpow_right₀ one_le_two (by decide)
      _ ≤ 1 / 10 ^ 22 := by norm_num
      _ ≤ n / 10 ^ k := by
        gcongr
        norm_num
  have hnear := h.within_normal hnormal
  rw [hm] at hnear
  -- Times the power of ten, the two are natural numbers that differ by one at most.
  have hvalue : (n : ℚ) / 10 ^ k * 10 ^ k = n := div_mul_cancel₀ _ hten.ne'
  have hbound : (n : ℚ) ≤ 2 ^ 53 := by exact_mod_cast hn
  have hlow : (n : ℚ) * (2 ^ 53 - 1) ≤ m * 10 ^ k * 2 ^ 53 := by
    have := mul_le_mul_of_nonneg_right hnear.low hten.le
    linarith
  have hhigh : (m : ℚ) * 10 ^ k * 2 ^ 53 ≤ n * (2 ^ 53 + 1) := by
    have := mul_le_mul_of_nonneg_right hnear.high hten.le
    linarith
  have hlow' : n * (2 ^ 53 - 1) ≤ m * 10 ^ k * 2 ^ 53 := by
    have : ((n * (2 ^ 53 - 1) : Nat) : ℚ) ≤ (m * 10 ^ k * 2 ^ 53 : Nat) := by
      push_cast
      linarith
    exact_mod_cast this
  have hhigh' : m * 10 ^ k * 2 ^ 53 ≤ n * (2 ^ 53 + 1) := by exact_mod_cast hhigh
  -- They differ by one at most where `n` is even, and the multiple of ten is even as well.
  obtain ⟨j, rfl⟩ : ∃ j, k = j + 1 := ⟨k - 1, by omega⟩
  have hten : m * 10 ^ (j + 1) = m * 10 ^ j * 10 := by rw [Nat.pow_succ, Nat.mul_assoc]
  rw [hten] at hlow' hhigh' ⊢
  generalize m * 10 ^ j = q at *
  by_cases hfull : n = 2 ^ 53
  · subst hfull
    omega
  · have hle : q * 10 ≤ n := by omega
    have hge : n ≤ q * 10 := by omega
    omega

theorem quotient_le_quarter {n k : Nat} (hn : n ≤ 2 ^ 53) (hk : 22 < k) :
    (n : ℚ) / 10 ^ k ≤ 1 / 4 := by
  have hn' : (n : ℚ) ≤ 2 ^ 53 := by exact_mod_cast hn
  calc (n : ℚ) / 10 ^ k ≤ 2 ^ 53 / 10 ^ 22 := by
        gcongr
        norm_num
    _ ≤ 1 / 4 := by norm_num

/-- What is scaled far down is not scaled to a whole number, unless it is nearly zero. -/
theorem small_quotient {n k m : Nat} {x : ℚ} (hn : n ≤ 2 ^ 53) (hk : 22 < k)
    (hsmall : 2 ^ (-1022 : Int) ≤ (n : ℚ) / 10 ^ k)
    (hx : Within (9 / 2 ^ 53) (2 ^ (-1073 : Int)) (n / 10 ^ k) x) : x ≠ m := by
  have hlarge := quotient_le_quarter hn hk
  have htiny : (2 : ℚ) ^ (-1073 : Int) ≤ 2 ^ (-1022 : Int) / 4 := by
    rw [le_div_iff₀ (by norm_num)]
    calc (2 : ℚ) ^ (-1073 : Int) * 4 = 2 ^ (-1071 : Int) := by
          rw [show (4 : ℚ) = 2 ^ (2 : Int) by norm_num, ← zpow_add₀ two_ne_zero]
          norm_num
      _ ≤ 2 ^ (-1022 : Int) := zpow_le_zpow_right₀ one_le_two (by decide)
  have hpos : (0 : ℚ) < 2 ^ (-1022 : Int) := by positivity
  obtain ⟨hlow, hhigh⟩ := hx
  generalize (2 : ℚ) ^ (-1022 : Int) = least at *
  generalize (2 : ℚ) ^ (-1073 : Int) = tiny at *
  rintro rfl
  have hm0 : (0 : ℚ) < m := by
    norm_num at hlow
    linarith
  have hm1 : (m : ℚ) < 1 := by
    norm_num at hhigh
    linarith
  have hpositive : 0 < m := by exact_mod_cast hm0
  have hsmallest : m < 1 := by exact_mod_cast hm1
  omega

theorem le_large_product {n : Nat} {E : Int} (hn : 0 < n) (hE : 22 < E) :
    (10 : ℚ) ^ 22 ≤ n * 10 ^ E := by
  have hn' : (1 : ℚ) ≤ n := by exact_mod_cast hn
  calc (10 : ℚ) ^ 22 ≤ 10 ^ E := by
        rw [← zpow_natCast]
        exact zpow_le_zpow_right₀ (by norm_num) hE.le
    _ ≤ n * 10 ^ E := le_mul_of_one_le_left (by positivity) hn'

/-- What is scaled far up is more than 64 bits hold. -/
theorem large_product {n : Nat} {E : Int} {x : ℚ} (hn : 0 < n) (hE : 22 < E)
    (hx : Within (9 / 2 ^ 53) (2 ^ (-1073 : Int)) (n * 10 ^ E) x) : 2 ^ 64 < x := by
  have hlarge := le_large_product hn hE
  have htiny : (2 : ℚ) ^ (-1073 : Int) ≤ 1 := zpow_le_one_of_nonpos₀ one_le_two (by decide)
  refine lt_of_lt_of_le ?_ hx.low
  generalize (2 : ℚ) ^ (-1073 : Int) = tiny at *
  norm_num at hlarge ⊢
  linarith

/-- A number of 53 bits, or any number of the format. -/
def Fits (v : ℚ) : Prop := v ≤ 2 ^ 53 ∨ ∃ y : Binary64, y.magnitude = v

theorem Fits.eq_of_rounding {m significand : Nat} {exponent : Int} (h : Fits m)
    (hrounding : Rounding m significand exponent) : (significand : ℚ) * 2 ^ exponent = m := by
  rcases h with hm | ⟨y, hy⟩
  · exact hrounding.eq_of_natCast (by exact_mod_cast hm)
  · rw [← hy] at hrounding ⊢
    exact hrounding.eq_magnitude

theorem Fits.exists_ge {m : Nat} (h : Fits m) (hm : m < 2 ^ 64) :
    ∃ y : Binary64, (m : ℚ) ≤ y.magnitude := by
  rcases h with hm' | ⟨y, hy⟩
  · obtain ⟨y, -, -, -, hexact⟩ := exists_start false hm
    exact ⟨y, (hexact (by exact_mod_cast hm')).ge⟩
  · exact ⟨y, hy.ge⟩

/-- **A whole number is scaled to itself** if it fits 64 bits and needs no rounding. -/
theorem scale_exact (negative : Bool) {n m : Nat} {E : Int} (hn : n ≤ 2 ^ 53)
    (hm : (n : ℚ) * 10 ^ E = m) (hlt : m < 2 ^ 64) (hfits : Fits m) :
    ∃ x, scale negative n E = .ok (.float x) ∧ x.negative = negative ∧ x.magnitude = m := by
  rcases Nat.eq_zero_or_pos n with rfl | hpos
  · rw [Nat.cast_zero, zero_mul] at hm
    rw [← hm]
    exact scale_zero negative E
  · have hup : E ≤ 22 := by
      by_contra hE
      have hlarge := le_large_product (E := E) hpos (by omega)
      have hlt' : (m : ℚ) < 2 ^ 64 := by exact_mod_cast hlt
      rw [hm] at hlarge
      norm_num at hlarge hlt'
      linarith
    have hdown : -22 ≤ E := by
      by_contra hE
      have hquarter := quotient_le_quarter (k := E.natAbs) hn (by omega)
      have hpos' : (0 : ℚ) < n * 10 ^ E := by positivity
      rw [← zpow_of_neg (by omega), hm] at hquarter
      rw [hm] at hpos'
      have hmpos : 0 < m := by exact_mod_cast hpos'
      have hmone : (1 : ℚ) ≤ m := by exact_mod_cast hmpos
      linarith
    have hE : E.natAbs ≤ 22 := by omega
    obtain ⟨y, hy⟩ := hfits.exists_ge hlt
    obtain ⟨x, hx⟩ := exists_scale negative hn hE (hm.le.trans hy)
    obtain ⟨x', hsame, hsign, -⟩ := scale_within (Nat.lt_of_le_of_lt hn (by decide)) hx
    cases hsame
    obtain ⟨significand, exponent, hrounding, hmagnitude⟩ := scale_rounds hn hE hx
    rw [hm] at hrounding
    exact ⟨x, hx, hsign, hmagnitude.trans (hfits.eq_of_rounding hrounding)⟩

/-- **What is scaled to a whole number of 64 bits is that number,** unless it is nearly zero or
needs to be rounded. -/
theorem scale_whole {negative : Bool} {n m : Nat} {E : Int} {x : Binary64} (hn : n ≤ 2 ^ 53)
    (h : scale negative n E = .ok (.float x)) (hx : x.magnitude = m) (hm : m ≤ 2 ^ 64)
    (hsmall : n = 0 ∨ 2 ^ (-1022 : Int) ≤ (n : ℚ) * 10 ^ E) (hfits : Fits (n * 10 ^ E)) :
    (n : ℚ) * 10 ^ E = m := by
  rcases Nat.eq_zero_or_pos n with rfl | hpos
  · obtain ⟨zero, hzero, -, hmagnitude⟩ := scale_zero negative E
    rw [h] at hzero
    cases hzero
    rw [← hx, hmagnitude, Nat.cast_zero, zero_mul]
  · obtain ⟨x', hsame, -, hnear⟩ := scale_within (Nat.lt_of_le_of_lt hn (by decide)) h
    cases hsame
    have hsmall := hsmall.resolve_left hpos.ne'
    by_cases hup : 22 < E
    · have hlarge := large_product hpos hup hnear
      rw [hx] at hlarge
      have hm' : (m : ℚ) ≤ 2 ^ 64 := by exact_mod_cast hm
      exact absurd hlarge hm'.not_gt
    · by_cases hdown : E < -22
      · rw [zpow_of_neg (by omega)] at hsmall hnear
        exact absurd hx (small_quotient hn (by omega) hsmall hnear)
      · have hE : E.natAbs ≤ 22 := by omega
        obtain ⟨significand, exponent, hrounding, hmagnitude⟩ := scale_rounds hn hE h
        rw [hmagnitude] at hx
        by_cases hneg : E < 0
        · rw [zpow_of_neg hneg] at hrounding ⊢
          have hn := eq_of_rounding_quotient hn hpos (by omega) hE hrounding hx
          rw [hn, Nat.cast_mul, Nat.cast_pow, Nat.cast_ofNat,
            mul_div_cancel_right₀ _ (by positivity)]
        · rw [zpow_of_nonneg hneg] at hrounding hfits ⊢
          have hcast : (n : ℚ) * 10 ^ E.natAbs = (n * 10 ^ E.natAbs : Nat) := by push_cast; rfl
          rw [hcast] at hrounding hfits ⊢
          rw [← hfits.eq_of_rounding hrounding, hx]

end NodeView.Json
