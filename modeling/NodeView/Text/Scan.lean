/-!
# NodeView.Text.Scan

What the readers of texts share: single characters, and digits with the numbers that they write.

Decimal digits are the ten of ASCII, and the digits of a larger base go on with letters, in
either case.
-/

namespace NodeView.Text

/-! ### Characters -/

/-- Passes over a given character. -/
def readChar (c : Char) : List Char → Option (List Char)
  | d :: rest => if d = c then some rest else none
  | [] => none

/-- Whether a character may stand in a key without quotes. -/
def isKeyChar (c : Char) : Bool := c.isAlphanum || c = '_' || c = '-'

/-! ### Decimal digits -/

/-- The value of a decimal digit. -/
def digitValue (c : Char) : Nat := c.toNat - '0'.toNat

theorem digitValue_le {c : Char} (h : c.isDigit = true) : digitValue c ≤ 9 := by
  have hle : c.toNat ≤ '9'.toNat := by
    simp only [Char.isDigit, Bool.and_eq_true, decide_eq_true_eq] at h
    exact h.2
  exact Nat.sub_le_sub_right hle '0'.toNat

/-- The number that decimal digits write. -/
def decimalValue (digits : List Char) : Nat := Nat.ofDigitChars 10 digits 0

/-! ### Digits of any base -/

/-- The number whose digits in a base have these values. -/
def ofDigitValues (base : Nat) (values : List Nat) : Nat :=
  values.foldl (fun n d => base * n + d) 0

theorem ofDigitValues_append (base : Nat) (values : List Nat) (d : Nat) :
    ofDigitValues base (values ++ [d]) = base * ofDigitValues base values + d := by
  rw [ofDigitValues, List.foldl_append]
  rfl

/-- The value of a hexadecimal digit. -/
def hexValue? (c : Char) : Option Nat :=
  if '0' ≤ c ∧ c ≤ '9' then some (c.toNat - 48)
  else if 'a' ≤ c ∧ c ≤ 'f' then some (c.toNat - 87)
  else if 'A' ≤ c ∧ c ≤ 'F' then some (c.toNat - 55)
  else none

/-- The value of a digit in a base of at most sixteen. -/
def digitIn? (base : Nat) (c : Char) : Option Nat := (hexValue? c).filter (· < base)

theorem hexValue?_lt {c : Char} {n : Nat} (h : hexValue? c = some n) : n < 16 := by
  simp only [hexValue?, Char.le_def, UInt32.le_iff_toNat_le] at h
  split at h
  · rename_i hc
    cases h
    have : c.toNat ≤ 57 := hc.2
    omega
  · split at h
    · rename_i hc
      cases h
      have : c.toNat ≤ 102 := hc.2
      omega
    · split at h
      · rename_i hc
        cases h
        have : c.toNat ≤ 70 := hc.2
        omega
      · cases h

theorem hexValue?_digitChar : ∀ n < 16, hexValue? n.digitChar = some n := by decide

theorem digitIn?_digitChar {base d : Nat} (hbase : base ≤ 16) (hd : d < base) :
    digitIn? base d.digitChar = some d := by
  rw [digitIn?, hexValue?_digitChar d (Nat.lt_of_lt_of_le hd hbase), Option.filter_some,
    if_pos (decide_eq_true hd)]

/-- What is no digit of a base is none of a smaller one. -/
theorem digitIn?_eq_none_of_le {base larger : Nat} (hle : base ≤ larger) {c : Char}
    (h : digitIn? larger c = none) : digitIn? base c = none := by
  simp only [digitIn?, Option.filter_eq_none_iff, decide_eq_true_eq] at h ⊢
  exact fun d hd hlt => h d hd (Nat.lt_of_lt_of_le hlt hle)

end NodeView.Text
