import NodeView.Proofs.Decimal.Rounding
import NodeView.Proofs.Json.Number
/-!
# NodeView.Proofs.Json.LargeNumber

Integers in a JSON text that do not fit 64 bits.

Digits are gathered until the significand overflows, and the digits from there on count as
powers of ten; the significand and the power of ten are rounded, and so is their product. All
of these roundings are monotone, so it is enough to look at the smallest significand that can
overflow: what comes out is no less than `2 ^ 64` (`scale_large`).

A negative integer overflows its sign before its significand. Those below `-2 ^ 63` are rounded
once: as far as half of the last place beyond it they are read as `-2 ^ 63` itself
(`readNumber_rounded`), further on as something less (`readNumber_below`).
-/

namespace NodeView.Json

open Binary64 (largest powerOfTen)
open Text (digitValue digitValue_le)

/-! ### Gathering too many digits -/

/-- Behind the first digit that does not count, none does. -/
theorem gatherInteger_dropped {digits rest : List Char} (hdigits : ∀ c ∈ digits, c.isDigit = true)
    (hrest : EndsNumber rest) (significand dropped : Nat) :
    gatherInteger significand (dropped + 1) (digits ++ rest)
      = (significand, digits.length + dropped + 1, rest) := by
  induction digits generalizing dropped with
  | nil =>
      rw [List.nil_append, List.length_nil, Nat.zero_add]
      cases rest with
      | nil => rfl
      | cons c rest =>
          have hc := (hrest c rfl).1
          simp only [gatherInteger, hc, Bool.false_eq_true, if_false]
  | cons c digits ih =>
      obtain ⟨hc, hdigits⟩ := List.forall_mem_cons.mp hdigits
      have hdropped : (decide (dropped + 1 = 0) && fits significand c) = false := by
        rw [decide_eq_false (Nat.succ_ne_zero _), Bool.false_and]
      rw [List.cons_append, gatherInteger, if_pos hc, if_neg (by rw [hdropped]; decide), ih hdigits,
        List.length_cons]
      congr 2
      omega

/-- Digits that write too large a number are gathered up to the first that overflows the
significand. -/
theorem gatherInteger_large {digits rest : List Char} (hdigits : ∀ c ∈ digits, c.isDigit = true)
    (hrest : EndsNumber rest) {n : Nat} (hn : n < 2 ^ 64)
    (hlarge : 2 ^ 64 ≤ Nat.ofDigitChars 10 digits n) :
    ∃ significand dropped, gatherInteger n 0 (digits ++ rest) = (significand, dropped + 1, rest)
      ∧ significand < 2 ^ 64 ∧ 2 ^ 64 ≤ 10 * significand + 9 := by
  induction digits generalizing n with
  | nil =>
      rw [Nat.ofDigitChars_nil] at hlarge
      omega
  | cons c digits ih =>
      obtain ⟨hc, hdigits⟩ := List.forall_mem_cons.mp hdigits
      rw [Nat.ofDigitChars_cons] at hlarge
      by_cases hfits : fits n c = true
      · simp only [List.cons_append, gatherInteger, hc, hfits, if_true, decide_true, Bool.and_true]
        exact ih hdigits (of_decide_eq_true hfits) hlarge
      · have hover : 2 ^ 64 ≤ 10 * n + digitValue c :=
          Nat.le_of_not_lt fun hlt => hfits (decide_eq_true hlt)
        have hdigit := digitValue_le hc
        refine ⟨n, digits.length, ?_, hn, by omega⟩
        simp only [List.cons_append, gatherInteger, hc, hfits, if_true, decide_true, Bool.and_false,
          Bool.false_eq_true, if_false, gatherInteger_dropped hdigits hrest n 0, Nat.add_zero]

theorem readFraction_dropped {rest : List Char} (hrest : EndsNumber rest) (negative : Bool)
    (significand dropped : Nat) :
    readFraction negative significand (dropped + 1) rest
      = (scale negative significand (dropped + 1 : Nat)).map (·, rest) := by
  cases rest with
  | nil => rfl
  | cons c rest =>
      obtain ⟨-, hpoint, hlower, hupper⟩ := hrest c rfl
      unfold readFraction readScale
      split <;> simp_all

/-- A natural number that does not fit 64 bits is a significand that nearly does and some
powers of ten. -/
theorem readUnsigned_large {n : Nat} {rest : List Char} (hn : 2 ^ 64 ≤ n)
    (hrest : EndsNumber rest) (negative : Bool) :
    ∃ significand dropped, significand < 2 ^ 64 ∧ 2 ^ 64 ≤ 10 * significand + 9
      ∧ readUnsigned negative (Decimal.digitsOf n ++ rest)
        = (scale negative significand (dropped + 1 : Nat)).map (·, rest) := by
  obtain ⟨c, digits, hdigits, hc⟩ := Decimal.digitsOf_head (n := n) (by omega)
  have hall : ∀ d ∈ c :: digits, d.isDigit = true := fun d hd =>
    Decimal.isDigit_of_mem_digitsOf (hdigits ▸ hd)
  obtain ⟨hdigit, hall⟩ := List.forall_mem_cons.mp hall
  have hvalue : Nat.ofDigitChars 10 digits (digitValue c) = n := by
    have hdecimal := Decimal.ofDigitChars_digitsOf n
    rwa [hdigits, Nat.ofDigitChars_cons, Nat.mul_zero, Nat.zero_add] at hdecimal
  have hsmall : digitValue c < 2 ^ 64 := by
    have := digitValue_le hdigit
    omega
  obtain ⟨significand, dropped, hgather, hhigh, hlow⟩ :=
    gatherInteger_large hall hrest hsmall (hvalue ▸ hn)
  refine ⟨significand, dropped, hhigh, hlow, ?_⟩
  rw [hdigits, List.cons_append, readUnsigned]
  · simp only [hdigit, if_true, hgather, readFraction_dropped hrest]
  · exact hc

/-! ### Scaling -/

/-- The powers of ten up to the largest one in the format are converted. -/
theorem rounding_powerOfTen {k : Nat} (hk : k ≤ maxPower) :
    (powerOfTen k).negative = false
      ∧ ∃ significand exponent, Rounding (10 ^ k) significand exponent
          ∧ (powerOfTen k).magnitude = significand * 2 ^ exponent := by
  have hmax : 10 ^ maxPower ≤ largest.significand * 2 ^ largest.exponent.toNat := by
    decide +kernel
  obtain ⟨x, hx, hrounding⟩ := Binary64.exists_ofQuotient?_one
    (Nat.le_trans (Nat.pow_le_pow_right (by decide) hk) hmax) false
  rw [Nat.cast_pow, Nat.cast_ofNat] at hrounding
  rwa [powerOfTen, hx, Option.getD_some]

/-- The conversion of a 64-bit significand. -/
theorem rounding_significand (negative : Bool) {n : Nat} (hn : n < 2 ^ 64) :
    ∃ x, Binary64.ofQuotient? negative n 1 = some x ∧ x.negative = negative
      ∧ ∃ significand exponent, Rounding n significand exponent
          ∧ x.magnitude = significand * 2 ^ exponent := by
  have hmax : 2 ^ 64 ≤ largest.significand * 2 ^ largest.exponent.toNat := by
    decide +kernel
  exact Binary64.exists_ofQuotient?_one (Nat.le_trans (Nat.le_of_lt hn) hmax) negative

/-- The smallest significand that digits overflow is rounded up. -/
theorem rounding_overflow : Rounding 1844674407370955161 7205759403792794 8 := by
  exact_mod_cast Binary64.rounding_natCast (by decide) (by decide) (by decide)

theorem rounding_ten : Rounding 10 (10 * 2 ^ 49) (-49) := by
  exact_mod_cast Binary64.rounding_natCast (by decide) (by decide) (by decide)

theorem rounding_two_pow_64 : Rounding (2 ^ 64) (2 ^ 52) 12 := by
  exact_mod_cast Binary64.rounding_natCast (by decide) (by decide) (by decide)

theorem ten_le_magnitude_powerOfTen {k : Nat} (hpos : 0 < k) (hk : k ≤ maxPower) :
    10 ≤ (powerOfTen k).magnitude := by
  obtain ⟨-, _, _, hrounding, hmagnitude⟩ := rounding_powerOfTen hk
  have hle : (10 : ℚ) ≤ 10 ^ k := le_self_pow₀ (by norm_num) (by omega)
  calc (10 : ℚ) = ((10 * 2 ^ 49 : Nat) : ℚ) * 2 ^ (-49 : Int) := by norm_num
    _ ≤ (powerOfTen k).magnitude := by
      rw [hmagnitude]
      exact rounding_ten.mono hrounding hle

/-- **What digits overflow is not scaled back into 64 bits.** Both the significand and the power
of ten are rounded before their product is, but neither to less than where 64 bits end. -/
theorem scale_large {significand k : Nat} (hlow : 2 ^ 64 ≤ 10 * significand + 9)
    (hhigh : significand < 2 ^ 64) (hk : 0 < k) (negative : Bool) :
    scale negative significand k = .error .numberOutOfRange
      ∨ ∃ x, scale negative significand k = .ok (.float x) ∧ x.negative = negative
          ∧ 2 ^ 64 ≤ x.magnitude := by
  obtain ⟨start, hstart, hnegative, _, _, hrounding, hmagnitude⟩ :=
    rounding_significand negative hhigh
  have hstartLow : 1844674407370955264 ≤ start.magnitude := by
    have hle : (1844674407370955161 : ℚ) ≤ significand := by
      exact_mod_cast (by omega : 1844674407370955161 ≤ significand)
    calc (1844674407370955264 : ℚ) = ((7205759403792794 : Nat) : ℚ) * 2 ^ (8 : Int) := by norm_num
      _ ≤ start.magnitude := by
        rw [hmagnitude]
        exact rounding_overflow.mono hrounding hle
  have hnonzero : start.isZero = false := by
    refine decide_eq_false fun hzero => ?_
    rw [Binary64.magnitude, hzero] at hstartLow
    norm_num at hstartLow
  have hnatural : ¬ (k : Int) < 0 := by omega
  simp only [scale, hstart, Option.getD_some, if_neg hnatural, Int.natAbs_natCast, Int.ofNat_le,
    hnonzero, Bool.false_eq_true, if_false]
  by_cases hmax : k ≤ maxPower
  · rw [if_pos hmax]
    cases hproduct : start.mul? (powerOfTen k) with
    | none => exact .inl rfl
    | some x =>
        obtain ⟨hsign, _, _, hround, hx⟩ := Binary64.rounding_mul? hproduct
        rw [(rounding_powerOfTen hmax).1, Bool.bne_false, hnegative] at hsign
        have hpower := ten_le_magnitude_powerOfTen hk hmax
        have hlarge : (2 : ℚ) ^ 64 ≤ start.magnitude * (powerOfTen k).magnitude :=
          calc (2 : ℚ) ^ 64 ≤ 1844674407370955264 * 10 := by norm_num
            _ ≤ start.magnitude * (powerOfTen k).magnitude :=
              mul_le_mul hstartLow hpower (by norm_num) start.magnitude_nonneg
        refine .inr ⟨x, rfl, hsign, ?_⟩
        calc (2 : ℚ) ^ 64 = ((2 ^ 52 : Nat) : ℚ) * 2 ^ (12 : Int) := by norm_num
          _ ≤ x.magnitude := by
            rw [hx]
            exact rounding_two_pow_64.mono hround hlarge
  · rw [if_neg hmax]
    exact .inl rfl

/-! ### Integers beyond 64 bits -/

theorem readUnsigned_beyond {n : Nat} {rest : List Char} (hn : 2 ^ 64 ≤ n)
    (hrest : EndsNumber rest) (negative : Bool) :
    readUnsigned negative (Decimal.digitsOf n ++ rest) = .error .numberOutOfRange
      ∨ ∃ x, readUnsigned negative (Decimal.digitsOf n ++ rest) = .ok (.float x, rest)
          ∧ x.negative = negative ∧ 2 ^ 64 ≤ x.magnitude := by
  obtain ⟨significand, dropped, hhigh, hlow, hread⟩ := readUnsigned_large hn hrest negative
  rw [hread]
  rcases scale_large hlow hhigh (Nat.succ_pos dropped) negative with hscale | ⟨x, hscale, hx⟩
  · exact .inl (by rw [hscale]; rfl)
  · exact .inr ⟨x, by rw [hscale]; rfl, hx⟩

/-- A positive integer that does not fit is read as a number that does not fit either. -/
theorem readNumber_beyond {n : Int} {rest : List Char} (hn : 2 ^ 64 ≤ n)
    (hrest : EndsNumber rest) :
    readNumber (integerChars n ++ rest) = .error .numberOutOfRange
      ∨ ∃ x, readNumber (integerChars n ++ rest) = .ok (.float x, rest) ∧ 2 ^ 64 ≤ x.value := by
  have hpositive : decide (n < 0) = false := decide_eq_false (by omega)
  rw [readNumber_integerChars_eq, hpositive]
  refine (readUnsigned_beyond (by omega) hrest false).imp_right ?_
  rintro ⟨x, hread, hsign, hlarge⟩
  refine ⟨x, hread, ?_⟩
  rwa [Binary64.value, hsign, if_neg Bool.false_ne_true]

/-- A negative integer that only fits 64 bits without its sign is rounded. -/
theorem readNumber_negative {n : Int} {rest : List Char} (hlow : -2 ^ 64 < n) (hhigh : n < -2 ^ 63)
    (hrest : EndsNumber rest) :
    ∃ x, readNumber (integerChars n ++ rest) = .ok (.float x, rest)
      ∧ ∃ significand exponent, Rounding n.natAbs significand exponent
          ∧ x.value = -(significand * 2 ^ exponent) := by
  have hnegative : decide (n < 0) = true := decide_eq_true (by omega)
  have hrange : (0 < n.natAbs && n.natAbs ≤ 2 ^ 63) = false := by
    rw [Bool.and_eq_false_iff]
    exact .inr (decide_eq_false (by omega))
  obtain ⟨x, hx, hsign, significand, exponent, hrounding, hmagnitude⟩ :=
    rounding_significand true (n := n.natAbs) (by omega)
  refine ⟨x, ?_, significand, exponent, hrounding, ?_⟩
  · rw [readNumber_integerChars_eq, hnegative, readUnsigned_digitsOf (by omega) hrest]
    simp only [integerNumber, hrange, hx, if_true, Bool.false_eq_true, if_false, Option.getD_some]
  · rw [Binary64.value, hsign, if_pos rfl, hmagnitude]

theorem rounding_two_pow_63 : Rounding (2 ^ 63) (2 ^ 52) 11 := by
  exact_mod_cast Binary64.rounding_natCast (by decide) (by decide) (by decide)

/-- Half-way to the next number, from the even one. -/
theorem rounding_half_way : Rounding (2 ^ 63 + 1024) (2 ^ 52) 11 := by
  exact_mod_cast Binary64.rounding_natCast (by decide) (by decide) (by decide)

theorem rounding_past_half_way : Rounding (2 ^ 63 + 1025) (2 ^ 52 + 1) 11 := by
  exact_mod_cast Binary64.rounding_natCast (by decide) (by decide) (by decide)

/-- **Integers just below the signed 64-bit range are read as its lower end.** -/
theorem readNumber_rounded {n : Int} {rest : List Char} (hlow : -2 ^ 63 - 1024 ≤ n)
    (hhigh : n < -2 ^ 63) (hrest : EndsNumber rest) :
    ∃ x, readNumber (integerChars n ++ rest) = .ok (.float x, rest) ∧ x.value = -2 ^ 63 := by
  obtain ⟨x, hread, significand, exponent, hrounding, hvalue⟩ :=
    readNumber_negative (by omega) hhigh hrest
  have hge : (2 ^ 63 : ℚ) ≤ n.natAbs := by
    exact_mod_cast (by omega : 2 ^ 63 ≤ n.natAbs)
  have hle : (n.natAbs : ℚ) ≤ 2 ^ 63 + 1024 := by
    exact_mod_cast (by omega : n.natAbs ≤ 2 ^ 63 + 1024)
  refine ⟨x, hread, ?_⟩
  have hboth := le_antisymm (hrounding.mono rounding_half_way hle)
    (rounding_two_pow_63.mono hrounding hge)
  rw [hvalue, hboth]
  norm_num

/-- Integers further below that range are read as numbers below it, if at all. -/
theorem readNumber_below {n : Int} {rest : List Char} (hn : n < -2 ^ 63 - 1024)
    (hrest : EndsNumber rest) :
    readNumber (integerChars n ++ rest) = .error .numberOutOfRange
      ∨ ∃ x, readNumber (integerChars n ++ rest) = .ok (.float x, rest)
          ∧ x.value < -2 ^ 63 := by
  by_cases hlarge : -2 ^ 64 < n
  · obtain ⟨x, hread, significand, exponent, hrounding, hvalue⟩ :=
      readNumber_negative hlarge (by omega) hrest
    have hge : (2 ^ 63 + 1025 : ℚ) ≤ n.natAbs := by
      exact_mod_cast (by omega : 2 ^ 63 + 1025 ≤ n.natAbs)
    have hpast := rounding_past_half_way.mono hrounding hge
    refine .inr ⟨x, hread, ?_⟩
    rw [hvalue]
    norm_num at hpast ⊢
    linarith
  · have hnegative : decide (n < 0) = true := decide_eq_true (by omega)
    rw [readNumber_integerChars_eq, hnegative]
    refine (readUnsigned_beyond (by omega) hrest true).imp_right ?_
    rintro ⟨x, hread, hsign, hlarge⟩
    refine ⟨x, hread, ?_⟩
    rw [Binary64.value, hsign, if_pos rfl]
    norm_num at hlarge ⊢
    linarith

end NodeView.Json
