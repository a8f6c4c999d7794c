import NodeView.Json.Number
import NodeView.Json.Printer
import NodeView.Proofs.Decimal.Digits
/-!
# NodeView.Proofs.Json.Number

Whole numbers in a JSON text.

An integer that fits 64 bits, signed or unsigned, is read back from the digits it is written
with, as long as nothing behind them carries the number on (`readNumber_integerChars`).
-/

namespace NodeView.Json

open Text (digitValue)

/-- What stands behind a number does not carry it on. -/
def EndsNumber (rest : List Char) : Prop :=
  ∀ c ∈ rest.head?, c.isDigit = false ∧ c ≠ '.' ∧ c ≠ 'e' ∧ c ≠ 'E'

theorem endsNumber_nil : EndsNumber [] := by
  intro c hc
  cases hc

theorem endsNumber_cons {c : Char} {rest : List Char}
    (h : c.isDigit = false ∧ c ≠ '.' ∧ c ≠ 'e' ∧ c ≠ 'E') : EndsNumber (c :: rest) := by
  intro d hd
  cases hd
  exact h

/-- Digits are gathered up to their end as long as all of them together fit. -/
theorem gatherInteger_digits {digits rest : List Char} (hdigits : ∀ c ∈ digits, c.isDigit = true)
    (hrest : EndsNumber rest) (n : Nat) (hfits : Nat.ofDigitChars 10 digits n < 2 ^ 64) :
    gatherInteger n 0 (digits ++ rest) = (Nat.ofDigitChars 10 digits n, 0, rest) := by
  induction digits generalizing n with
  | nil =>
      cases rest with
      | nil => rfl
      | cons c rest =>
          have hc := (hrest c rfl).1
          simp [gatherInteger, hc]
  | cons c digits ih =>
      obtain ⟨hc, hdigits⟩ := List.forall_mem_cons.mp hdigits
      rw [Nat.ofDigitChars_cons] at hfits ⊢
      -- The digits so far write no more than all of them do.
      have hnext : fits n c = true :=
        decide_eq_true (Nat.lt_of_le_of_lt (Decimal.le_ofDigitChars digits _) hfits)
      rw [List.cons_append, gatherInteger]
      simp only [hc, hnext, if_true, decide_true, Bool.and_true]
      exact ih hdigits _ hfits

theorem readFraction_end {rest : List Char} (hrest : EndsNumber rest) (negative : Bool)
    (significand : Nat) :
    readFraction negative significand 0 rest = .ok (integerNumber negative significand, rest) := by
  cases rest with
  | nil => rfl
  | cons c rest =>
      obtain ⟨-, hpoint, hlower, hupper⟩ := hrest c rfl
      unfold readFraction
      split <;> simp_all

theorem readUnsigned_digitsOf {n : Nat} {rest : List Char} (hn : n < 2 ^ 64)
    (hrest : EndsNumber rest) (negative : Bool) :
    readUnsigned negative (Decimal.digitsOf n ++ rest)
      = .ok (integerNumber negative n, rest) := by
  by_cases hzero : n = 0
  · subst hzero
    have hend := readFraction_end hrest negative 0
    cases rest with
    | nil => exact hend
    | cons c rest =>
        have hc := (hrest c rfl).1
        show readUnsigned negative ('0' :: c :: rest) = _
        simp only [readUnsigned, hc, Bool.false_eq_true, if_false, hend]
  · obtain ⟨c, digits, hdigits, hc⟩ := Decimal.digitsOf_head (Nat.pos_of_ne_zero hzero)
    have hall : ∀ d ∈ c :: digits, d.isDigit = true := fun d hd =>
      Decimal.isDigit_of_mem_digitsOf (hdigits ▸ hd)
    obtain ⟨hdigit, hall⟩ := List.forall_mem_cons.mp hall
    have hvalue : Nat.ofDigitChars 10 digits (digitValue c) = n := by
      have hdecimal := Decimal.ofDigitChars_digitsOf n
      rwa [hdigits, Nat.ofDigitChars_cons, Nat.mul_zero, Nat.zero_add] at hdecimal
    have hgather := gatherInteger_digits hall hrest (digitValue c) (hvalue ▸ hn)
    rw [hdigits, List.cons_append]
    rw [readUnsigned]
    · simp only [hdigit, if_true, hgather, hvalue, readFraction_end hrest]
    · exact hc

/-- A sign or a digit is what every number starts with. -/
def startsNumber (c : Char) : Bool := c = '-' || c.isDigit

theorem integerChars_head (n : Int) :
    ∃ c text, integerChars n = c :: text ∧ startsNumber c = true := by
  unfold integerChars
  split
  · exact ⟨'-', _, rfl, rfl⟩
  · obtain ⟨c, digits, hdigits, hc⟩ := Decimal.exists_digitsOf_eq_cons n.natAbs
    exact ⟨c, digits, hdigits, by simp [startsNumber, hc]⟩

/-- The characters of an integer are read as its digits, behind a sign if it has one. -/
theorem readNumber_integerChars_eq (n : Int) (rest : List Char) :
    readNumber (integerChars n ++ rest)
      = readUnsigned (decide (n < 0)) (Decimal.digitsOf n.natAbs ++ rest) := by
  unfold integerChars
  split
  · rename_i hnegative
    rw [decide_eq_true hnegative, List.cons_append, readNumber]
  · rename_i hnatural
    obtain ⟨c, digits, hdigits, hc⟩ := Decimal.exists_digitsOf_eq_cons n.natAbs
    rw [decide_eq_false hnatural, readNumber]
    intro rest' h
    rw [hdigits, List.cons_append] at h
    obtain ⟨rfl, -⟩ := List.cons.inj h
    cases hc

/-- An integer is read back from the characters that write it. -/
theorem readNumber_integerChars {n : Int} {rest : List Char} (hlow : -2 ^ 63 ≤ n)
    (hhigh : n < 2 ^ 64) (hrest : EndsNumber rest) :
    readNumber (integerChars n ++ rest) = .ok (.integer n, rest) := by
  have hnumber : integerNumber (decide (n < 0)) n.natAbs = .integer n := by
    by_cases hnegative : n < 0
    · have hrange : (0 < n.natAbs && n.natAbs ≤ 2 ^ 63) = true := by simp; omega
      simp only [integerNumber, decide_eq_true hnegative, if_true, hrange]
      congr 1
      omega
    · simp only [integerNumber, decide_eq_false hnegative, Bool.false_eq_true, if_false]
      congr 1
      omega
  rw [readNumber_integerChars_eq, readUnsigned_digitsOf (by omega) hrest, hnumber]

end NodeView.Json
