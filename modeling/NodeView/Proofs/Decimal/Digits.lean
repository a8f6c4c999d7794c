import NodeView.Decimal.Shortest
import NodeView.Text.Scan
/-!
# NodeView.Proofs.Decimal.Digits

The decimal digits that numbers are written with.

The digits of a number write the number (`ofDigitChars_digitsOf`), and no number but zero is
written with a zero in front (`digitsOf_head`). Whoever reads digits from the left and keeps a
bound may look at the number that all of them write: those in front write no larger one
(`le_ofDigitChars`).
-/

namespace NodeView.Decimal

theorem isDigit_of_mem_digitsOf {n : Nat} {c : Char} (h : c ∈ digitsOf n) : c.isDigit = true :=
  Nat.isDigit_of_mem_toDigits (by decide) (by decide) h

theorem exists_digitsOf_eq_cons (n : Nat) :
    ∃ c digits, digitsOf n = c :: digits ∧ c.isDigit = true := by
  have hne : digitsOf n ≠ [] := Nat.toDigits_ne_nil
  obtain ⟨c, digits, hdigits⟩ := List.exists_cons_of_ne_nil hne
  have hmem : c ∈ digitsOf n := by
    rw [hdigits]
    exact List.mem_cons_self
  exact ⟨c, digits, hdigits, isDigit_of_mem_digitsOf hmem⟩

theorem ofDigitChars_digitsOf (n : Nat) : Nat.ofDigitChars 10 (digitsOf n) 0 = n :=
  Nat.ofDigitChars_ten_toDigits

/-- More digits write no smaller number. -/
theorem le_ofDigitChars (digits : List Char) (n : Nat) : n ≤ Nat.ofDigitChars 10 digits n := by
  induction digits generalizing n with
  | nil => simp
  | cons c digits ih =>
      rw [Nat.ofDigitChars_cons]
      refine Nat.le_trans ?_ (ih _)
      omega

/-- Digits behind those of a number leave it as the number in front of them. -/
theorem ofDigitChars_bounds {digits : List Char} (hdigits : ∀ c ∈ digits, c.isDigit = true)
    (n : Nat) :
    n * 10 ^ digits.length ≤ Nat.ofDigitChars 10 digits n
      ∧ Nat.ofDigitChars 10 digits n < (n + 1) * 10 ^ digits.length := by
  induction digits generalizing n with
  | nil => simp
  | cons c digits ih =>
      obtain ⟨hc, hdigits⟩ := List.forall_mem_cons.mp hdigits
      have hdigit : c.toNat - '0'.toNat ≤ 9 := Text.digitValue_le hc
      rw [Nat.ofDigitChars_cons, List.length_cons, Nat.pow_succ, Nat.mul_comm (10 ^ _) 10,
        ← Nat.mul_assoc, ← Nat.mul_assoc]
      obtain ⟨hlow, hhigh⟩ := ih hdigits (10 * n + (c.toNat - '0'.toNat))
      constructor
      · refine Nat.le_trans (Nat.mul_le_mul_right _ ?_) hlow
        omega
      · refine Nat.lt_of_lt_of_le hhigh (Nat.mul_le_mul_right _ ?_)
        omega

/-- A number other than zero is written without a zero in front. -/
theorem digitsOf_head {n : Nat} (h : 0 < n) : ∃ c digits, digitsOf n = c :: digits ∧ c ≠ '0' := by
  induction n using Nat.strongRecOn with
  | _ n ih =>
      by_cases hn : n < 10
      · refine ⟨n.digitChar, [], Nat.toDigits_of_lt_base hn, ?_⟩
        rw [ne_eq, Nat.digitChar_eq_zero]
        omega
      · obtain ⟨c, digits, hdigits, hc⟩ := ih (n / 10) (by omega) (by omega)
        refine ⟨c, digits ++ [(n % 10).digitChar], ?_, hc⟩
        rw [digitsOf] at hdigits
        rw [digitsOf, Nat.toDigits_of_base_le (by decide) (by omega), hdigits, List.cons_append]

end NodeView.Decimal
