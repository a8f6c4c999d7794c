import NodeView.Proofs.Decimal.Accuracy
import NodeView.Proofs.Json.LargeNumber
/-!
# NodeView.Proofs.Json.Gathering

What the digits of a number with a fraction are gathered to.

Digits are all gathered as long as they write less than `2 ^ 64`. Beyond that some are not, in
front of the point or behind it, and what was gathered has the digits in front of them
(`gatherInteger_spec`, `gatherFraction_spec`). Either way it is within one part in `2 ^ 60` of
what the digits write (`gather_spec`).
-/

namespace NodeView.Json

open Text (digitValue digitValue_le)

/-! ### One part of the digits -/

/-- Digits in front of the point are all gathered, or those in front of the first that overflows
the significand. -/
theorem gatherInteger_spec {digits : List Char} (hdigits : ∀ c ∈ digits, c.isDigit = true)
    {n : Nat} (hn : n < 2 ^ 64) :
    ∃ significand dropped, gatherInteger n 0 digits = (significand, dropped, [])
      ∧ significand < 2 ^ 64
      ∧ (dropped = 0 ∧ significand = Nat.ofDigitChars 10 digits n
        ∨ 2 ^ 64 ≤ 10 * significand + 9 ∧ 2 ^ 64 ≤ Nat.ofDigitChars 10 digits n)
      ∧ significand * 10 ^ dropped ≤ Nat.ofDigitChars 10 digits n
      ∧ Nat.ofDigitChars 10 digits n < (significand + 1) * 10 ^ dropped := by
  induction digits generalizing n with
  | nil => exact ⟨n, 0, rfl, hn, .inl ⟨rfl, rfl⟩, by simp, by simp⟩
  | cons c digits ih =>
      obtain ⟨hc, htail⟩ := List.forall_mem_cons.mp hdigits
      by_cases hfits : fits n c = true
      · obtain ⟨significand, dropped, hgather, hspec⟩ := ih htail (of_decide_eq_true hfits)
        refine ⟨significand, dropped, ?_, hspec⟩
        simp only [gatherInteger, hc, hfits, if_true, decide_true, Bool.and_true, hgather]
      · -- From the first digit that does not fit on, all are counted only.
        have hover : 2 ^ 64 ≤ 10 * n + digitValue c :=
          Nat.le_of_not_lt fun hlt => hfits (decide_eq_true hlt)
        have hdigit := digitValue_le hc
        have hbounds := Decimal.ofDigitChars_bounds hdigits n
        have hdropped := gatherInteger_dropped htail endsNumber_nil n 0
        rw [List.append_nil, Nat.add_zero] at hdropped
        refine ⟨n, digits.length + 1, ?_, hn, .inr ⟨by omega, ?_⟩, hbounds⟩
        · simp only [gatherInteger, hc, hfits, if_true, decide_true, Bool.and_false,
            Bool.false_eq_true, if_false, hdropped]
        · rw [Nat.ofDigitChars_cons]
          exact Nat.le_trans hover (Decimal.le_ofDigitChars digits _)

/-- Digits behind the point are all gathered, or those in front of the first that overflows the
significand. -/
theorem gatherFraction_spec {digits : List Char} (hdigits : ∀ c ∈ digits, c.isDigit = true)
    {n : Nat} (hn : n < 2 ^ 64) (taken : Nat) :
    ∃ significand more rest, gatherFraction n taken digits = (significand, taken + more, rest)
      ∧ significand < 2 ^ 64 ∧ more ≤ digits.length
      ∧ (more = digits.length ∧ significand = Nat.ofDigitChars 10 digits n
        ∨ 2 ^ 64 ≤ 10 * significand + 9 ∧ 2 ^ 64 ≤ Nat.ofDigitChars 10 digits n)
      ∧ n * 10 ^ more ≤ significand ∧ significand < (n + 1) * 10 ^ more
      ∧ significand * 10 ^ (digits.length - more) ≤ Nat.ofDigitChars 10 digits n
      ∧ Nat.ofDigitChars 10 digits n < (significand + 1) * 10 ^ (digits.length - more) := by
  induction digits generalizing n taken with
  | nil => exact ⟨n, 0, [], rfl, hn, le_rfl, .inl ⟨rfl, rfl⟩, by simp, by simp, by simp, by simp⟩
  | cons c digits ih =>
      obtain ⟨hc, htail⟩ := List.forall_mem_cons.mp hdigits
      by_cases hfits : fits n c = true
      · obtain ⟨significand, more, rest, hgather, hlt, hle, hexact, hlow, hhigh, hvalue⟩ :=
          ih htail (of_decide_eq_true hfits) (taken + 1)
        have hdigit := digitValue_le hc
        have hlength : (c :: digits).length - (more + 1) = digits.length - more := by
          rw [List.length_cons]
          omega
        refine ⟨significand, more + 1, rest, ?_, hlt, Nat.succ_le_succ hle, ?_, ?_, ?_, ?_⟩
        · simp only [gatherFraction, hc, hfits, if_true, hgather]
          rw [Nat.add_right_comm, Nat.add_assoc]
        · exact hexact.imp_left fun h => ⟨congrArg (· + 1) h.1, h.2⟩
        · refine Nat.le_trans ?_ hlow
          rw [Nat.pow_succ, Nat.mul_comm (10 ^ more), ← Nat.mul_assoc]
          exact Nat.mul_le_mul_right _ (by omega)
        · refine Nat.lt_of_lt_of_le hhigh ?_
          rw [Nat.pow_succ, Nat.mul_comm (10 ^ more), ← Nat.mul_assoc]
          exact Nat.mul_le_mul_right _ (by omega)
        · rw [hlength]
          exact hvalue
      · have hover : 2 ^ 64 ≤ 10 * n + digitValue c :=
          Nat.le_of_not_lt fun hlt => hfits (decide_eq_true hlt)
        have hdigit := digitValue_le hc
        have hbounds := Decimal.ofDigitChars_bounds hdigits n
        refine ⟨n, 0, digits.dropWhile Char.isDigit, ?_, hn, Nat.zero_le _, .inr ⟨by omega, ?_⟩,
          by simp, by simp, hbounds⟩
        · simp only [gatherFraction, hc, hfits, if_true, Bool.false_eq_true, if_false]
          rfl
        · rw [Nat.ofDigitChars_cons]
          exact Nat.le_trans hover (Decimal.le_ofDigitChars digits _)

/-! ### Both parts -/

/-- The significand and the power of ten that the digits in front of the point and those behind it
are gathered to. -/
def gather (whole fraction : List Char) : Nat × Int :=
  let front := gatherInteger 0 0 whole
  let back := gatherFraction front.1 0 fraction
  (back.1, (front.2.1 : Int) - back.2.1)

/-- **Digits that write less than `2 ^ 64` are gathered as they are, and others within one part in
`2 ^ 60` of what they write.** -/
theorem gather_spec {whole fraction : List Char} (hwhole : ∀ c ∈ whole, c.isDigit = true)
    (hfraction : ∀ c ∈ fraction, c.isDigit = true) :
    (gather whole fraction).1 < 2 ^ 64
      ∧ (gather whole fraction
            = (Nat.ofDigitChars 10 (whole ++ fraction) 0, -(fraction.length : Int))
          ∨ 2 ^ 64 ≤ Nat.ofDigitChars 10 (whole ++ fraction) 0 ∧ 0 < (gather whole fraction).1)
      ∧ Within (1 / 2 ^ 60) 0
          (Nat.ofDigitChars 10 (whole ++ fraction) 0 * 10 ^ (-(fraction.length : Int)))
          ((gather whole fraction).1 * 10 ^ (gather whole fraction).2) := by
  obtain ⟨n, dropped, hfront, hn, hexact, hlow, hhigh⟩ := gatherInteger_spec hwhole
    (n := 0) (by decide)
  obtain ⟨significand, taken, rest, hback, hsignificand, htaken, hall, hlow', hhigh', hlead, hlead'⟩
    := gatherFraction_spec hfraction hn 0
  have hgather : gather whole fraction = (significand, (dropped : Int) - taken) := by
    simp only [gather, hfront, hback, Nat.zero_add]
  rw [hgather, Nat.ofDigitChars_append]
  generalize Nat.ofDigitChars 10 whole 0 = front at hexact hlow hhigh
  refine ⟨hsignificand, ?_⟩
  have hpower : (10 : ℚ) ^ (-(fraction.length : Int)) = (10 ^ fraction.length)⁻¹ := by
    rw [zpow_neg, zpow_natCast]
  have hscale : (10 : ℚ) ^ ((dropped : Int) - taken) = 10 ^ dropped / 10 ^ taken := by
    rw [zpow_sub₀ (by norm_num), zpow_natCast, zpow_natCast]
  simp only [hpower, hscale, ← div_eq_mul_inv]
  rcases hexact with ⟨rfl, rfl⟩ | ⟨hmany, hlarge⟩
  · rcases hall with ⟨rfl, rfl⟩ | ⟨hmany, hlarge⟩
    · refine ⟨.inl (by simp), ?_⟩
      rw [pow_zero, mul_one_div]
      exact (Within.refl _).mono (by positivity) (by norm_num) le_rfl
    · -- What was gathered has all digits in front of some place behind the point.
      refine ⟨.inr ⟨hlarge, by omega⟩, ?_⟩
      have hsplit : (10 : ℚ) ^ fraction.length = 10 ^ (fraction.length - taken) * 10 ^ taken := by
        rw [← pow_add, Nat.sub_add_cancel htaken]
      have hlead : (significand * 10 ^ (fraction.length - taken) : ℚ)
          ≤ Nat.ofDigitChars 10 fraction n := by exact_mod_cast hlead
      have hlead' : (Nat.ofDigitChars 10 fraction n : ℚ)
          ≤ (significand + 1) * 10 ^ (fraction.length - taken) := by exact_mod_cast hlead'.le
      refine .of_between (n := significand) (u := (10 ^ taken)⁻¹) (by omega) (by positivity)
        ?_ ?_ ?_ ?_
      · rw [hsplit, ← div_eq_mul_inv, div_le_div_iff₀ (by positivity) (by positivity), ← mul_assoc]
        gcongr
      · rw [hsplit, ← div_eq_mul_inv, div_le_div_iff₀ (by positivity) (by positivity), ← mul_assoc]
        gcongr
      · rw [pow_zero, one_div]
      · rw [pow_zero, one_div]
        gcongr
        linarith
  · -- What was gathered has all digits in front of some place before the point.
    obtain ⟨hvalue, hvalue'⟩ := Decimal.ofDigitChars_bounds hfraction front
    have hlow : (n * 10 ^ dropped : ℚ) ≤ front := by exact_mod_cast hlow
    have hhigh : (front + 1 : ℚ) ≤ (n + 1) * 10 ^ dropped := by exact_mod_cast hhigh
    have hvalue : (front * 10 ^ fraction.length : ℚ) ≤ Nat.ofDigitChars 10 fraction front := by
      exact_mod_cast hvalue
    have hvalue' : (Nat.ofDigitChars 10 fraction front : ℚ)
        ≤ (front + 1) * 10 ^ fraction.length := by exact_mod_cast hvalue'.le
    have hlow' : (n : ℚ) ≤ significand / 10 ^ taken := by
      rw [le_div_iff₀ (by positivity)]
      exact_mod_cast hlow'
    have hhigh' : (significand : ℚ) / 10 ^ taken ≤ n + 1 := by
      rw [div_le_iff₀ (by positivity)]
      exact_mod_cast hhigh'.le
    have hpos : 0 < significand := by
      refine Nat.pos_of_ne_zero fun hzero => ?_
      rw [hzero, Nat.cast_zero, zero_div] at hlow'
      have : n ≤ 0 := by exact_mod_cast hlow'
      omega
    refine ⟨.inr ⟨Nat.le_trans hlarge (Decimal.le_ofDigitChars fraction front), hpos⟩, ?_⟩
    rw [mul_div_left_comm, mul_comm ((10 : ℚ) ^ dropped)]
    refine .of_between (n := n) (u := 10 ^ dropped) (by omega) (by positivity) ?_ ?_ ?_ ?_
    · rw [le_div_iff₀ (by positivity)]
      exact le_trans (by gcongr) hvalue
    · rw [div_le_iff₀ (by positivity)]
      exact le_trans hvalue' (by gcongr)
    · gcongr
    · gcongr

end NodeView.Json
