import NodeView.Proofs.Decimal.Rounding
/-!
# NodeView.Proofs.Decimal.Whole

Numbers of the format beside whole numbers.

The order is that of the values (`le_iff`, `lt_iff`), and a number has no fraction if its value is
whole (`isWhole_iff`). A cast to 64 bits stops at the ends of its range, so it is the value only of
a whole number within (`toInt64_of_value`, `toUInt64_of_value`). The largest integers of 64 bits are
no numbers of the format: they are rounded up, to the powers of two that are just out of range.
-/

namespace NodeView.Binary64

variable {x y : Binary64} {n : Int}

/-- The value is the quotient with the sign of the number. -/
theorem value_eq_div (x : Binary64) :
    x.value = (x.signed x.quotient.1 : ℚ) / x.quotient.2 := by
  rw [value, ← x.quotient_div, signed]
  split
  · push_cast
    rw [neg_div]
  · push_cast
    rfl

theorem quotient_pos_rat (x : Binary64) : (0 : ℚ) < x.quotient.2 := Nat.cast_pos.mpr x.quotient_pos

theorem le_iff : x ≤ y ↔ x.value ≤ y.value := by
  rw [x.value_eq_div, y.value_eq_div, div_le_div_iff₀ x.quotient_pos_rat y.quotient_pos_rat]
  exact_mod_cast Iff.rfl

theorem lt_iff : x < y ↔ x.value < y.value := by
  rw [x.value_eq_div, y.value_eq_div, div_lt_div_iff₀ x.quotient_pos_rat y.quotient_pos_rat]
  exact_mod_cast Iff.rfl

/-! ### Whole numbers -/

theorem signed_mul (x : Binary64) (m k : Nat) : x.signed (m * k) = x.signed m * k := by
  unfold signed
  split <;> simp

theorem natAbs_signed (x : Binary64) (m : Nat) : (x.signed m).natAbs = m := by
  unfold signed
  split <;> simp

/-- A value is whole if the quotient leaves no remainder, and then the number has no fraction to
lose. -/
theorem value_eq_iff : x.value = n ↔ x.quotient.1 % x.quotient.2 = 0 ∧ x.truncate = n := by
  have hpos := x.quotient_pos
  rw [x.value_eq_div, div_eq_iff x.quotient_pos_rat.ne', truncate]
  generalize x.quotient.1 = num
  generalize x.quotient.2 = den at hpos
  constructor
  · intro h
    have hwhole : x.signed num = n * den := by exact_mod_cast h
    obtain ⟨m, rfl⟩ : den ∣ num := by
      rw [← x.natAbs_signed num, hwhole, Int.natAbs_mul, Int.natAbs_natCast]
      exact Nat.dvd_mul_left _ _
    refine ⟨Nat.mul_mod_right _ _, ?_⟩
    rw [Nat.mul_comm, signed_mul] at hwhole
    rw [Nat.mul_div_cancel_left m hpos]
    exact Int.eq_of_mul_eq_mul_right (by omega) hwhole
  · rintro ⟨hmod, rfl⟩
    have hnum := Nat.div_mul_cancel (Nat.dvd_of_mod_eq_zero hmod)
    rw [← Int.cast_natCast den, ← Int.cast_mul, ← signed_mul, hnum]

theorem isWhole_iff : x.isWhole ↔ ∃ n : Int, x.value = n := by
  simp only [isWhole, value_eq_iff, decide_eq_true_eq]
  exact ⟨fun h => ⟨_, h, rfl⟩, fun ⟨_, h, _⟩ => h⟩

theorem truncate_of_value (h : x.value = n) : x.truncate = n := (value_eq_iff.mp h).2

theorem toInt64_of_value (h : x.value = n) (hlow : -2 ^ 63 ≤ n) (hhigh : n < 2 ^ 63) :
    x.toInt64.toInt = n := by
  have hclamp : max (-2 ^ 63) (min (2 ^ 63 - 1) n) = n := by omega
  rw [toInt64, truncate_of_value h, hclamp]
  exact Int64.toInt_ofInt_of_le hlow hhigh

theorem toUInt64_of_value (h : x.value = n) (hlow : 0 ≤ n) (hhigh : n < 2 ^ 64) :
    (x.toUInt64.toNat : Int) = n := by
  have hclamp : max 0 (min (2 ^ 64 - 1) n) = n := by omega
  rw [toUInt64, truncate_of_value h, hclamp, UInt64.toNat_ofNat_of_lt', Int.toNat_of_nonneg hlow]
  show n.toNat < 2 ^ 64
  omega

/-! ### The ends of the ranges -/

theorem value_zero (negative : Bool) : (zero negative).value = 0 := by
  cases negative <;> norm_num [value, magnitude, zero]

/-- The least integer of 64 bits is a number of the format. -/
theorem value_ofInt_least : (ofInt (-2 ^ 63)).value = -2 ^ 63 := by
  have hparts : ofInt (-2 ^ 63) = ⟨true, 2 ^ 52, 11, by decide⟩ := by decide +kernel
  rw [hparts, value]
  norm_num [magnitude]

/-- The largest signed integer of 64 bits is rounded up. -/
theorem value_ofInt_largest : (ofInt (2 ^ 63 - 1)).value = 2 ^ 63 := by
  have hparts : ofInt (2 ^ 63 - 1) = ⟨false, 2 ^ 52, 11, by decide⟩ := by decide +kernel
  rw [hparts, value]
  norm_num [magnitude]

/-- The largest unsigned integer of 64 bits is rounded up. -/
theorem value_ofInt_largest_unsigned : (ofInt (2 ^ 64 - 1)).value = 2 ^ 64 := by
  have hparts : ofInt (2 ^ 64 - 1) = ⟨false, 2 ^ 52, 12, by decide⟩ := by decide +kernel
  rw [hparts, value]
  norm_num [magnitude]

end NodeView.Binary64
