import NodeView.Proofs.Json.Layout
import NodeView.Proofs.Json.NumberText
import NodeView.Proofs.Json.Scaling
/-!
# NodeView.Proofs.Json.Literal

Numbers that are written with a fraction or an exponent, and what they are read as.

A literal stands for an exact rational number (`Literal.value`). It is read by gathering its digits
and scaling what was gathered (`Literal.readNumber_chars`), which stays near that number
(`Literal.outcome_within`) and is exact for the literals that need no rounding
(`Literal.Short.outcome_exact`, `Literal.Short.outcome_whole`).
-/

namespace NodeView.Json

open Text (decimalValue digitValue digitValue_le)

/-! ### Literals -/

/-- An exponent as it is written: its letter, its sign if there is one (which may be a minus), and
its digits. -/
structure Exponent where
  upper : Bool
  sign : Option Bool
  digits : List Char
  digits_ne_nil : digits ≠ []
  isDigit : ∀ c ∈ digits, c.isDigit = true

namespace Exponent

/-- The characters of an exponent behind its letter. -/
def tail (exponent : Exponent) : List Char :=
  match exponent.sign with
  | none => exponent.digits
  | some false => '+' :: exponent.digits
  | some true => '-' :: exponent.digits

/-- The characters of an exponent. -/
def chars (exponent : Exponent) : List Char :=
  (if exponent.upper then 'E' else 'e') :: exponent.tail

/-- Whether an exponent is written with a minus. -/
def down (exponent : Exponent) : Bool := exponent.sign = some true

/-- The number that an exponent writes. -/
def value (exponent : Exponent) : Int :=
  if exponent.down then -(decimalValue exponent.digits : Int) else decimalValue exponent.digits

end Exponent

/-- A number as it is written with a fraction, an exponent, or both: the digits behind the point
are listed, and there are none if there is no point. -/
structure Literal where
  negative : Bool
  whole : Nat
  fraction : List Char
  exponent : Option Exponent
  isDigit : ∀ c ∈ fraction, c.isDigit = true
  isDecimal : fraction ≠ [] ∨ exponent.isSome = true

namespace Literal

/-- The characters behind the fraction. -/
def exponentChars (literal : Literal) : List Char :=
  match literal.exponent with
  | none => []
  | some exponent => exponent.chars

/-- The characters behind the integer part. -/
def tail (literal : Literal) : List Char :=
  (if literal.fraction = [] then [] else '.' :: literal.fraction) ++ literal.exponentChars

/-- The characters of a literal. -/
def chars (literal : Literal) : List Char :=
  (if literal.negative then ['-'] else []) ++ (Decimal.digitsOf literal.whole ++ literal.tail)

/-- The number that all the digits write, as if there were no point. -/
def digits (literal : Literal) : Nat :=
  Nat.ofDigitChars 10 (Decimal.digitsOf literal.whole ++ literal.fraction) 0

/-- The power of ten that the digits are to be multiplied by. -/
def power (literal : Literal) : Int :=
  (literal.exponent.map (·.value)).getD 0 - literal.fraction.length

/-- The absolute value of a literal. -/
def magnitude (literal : Literal) : ℚ := literal.digits * 10 ^ literal.power

/-- The number that a literal stands for. -/
def value (literal : Literal) : ℚ :=
  if literal.negative then -literal.magnitude else literal.magnitude

/-- What a literal is read as. -/
def outcome (literal : Literal) : Except Fault Number :=
  let (significand, power) := gather (Decimal.digitsOf literal.whole) literal.fraction
  match literal.exponent with
  | none => scale literal.negative significand power
  | some exponent =>
    withExponent literal.negative significand power exponent.down exponent.digits

end Literal

/-! ### Reading a literal -/

theorem readMagnitude_digits {digits rest : List Char} (hne : digits ≠ [])
    (hdigits : ∀ c ∈ digits, c.isDigit = true) (hrest : EndsNumber rest) (negative : Bool)
    (significand : Nat) (power : Int) (down : Bool) :
    readMagnitude negative significand power down (digits ++ rest)
      = (withExponent negative significand power down digits).map (·, rest) := by
  rw [readMagnitude, takeWhile_isDigit_append hdigits hrest.endsDigits,
    dropWhile_isDigit_append hdigits hrest.endsDigits, if_neg hne]

theorem Exponent.readExponent_tail (exponent : Exponent) (negative : Bool) (significand : Nat)
    (power : Int) {rest : List Char} (hrest : EndsNumber rest) :
    readExponent negative significand power (exponent.tail ++ rest)
      = (withExponent negative significand power exponent.down exponent.digits).map (·, rest) := by
  have hread := readMagnitude_digits exponent.digits_ne_nil exponent.isDigit hrest negative
    significand power exponent.down
  rw [← hread]
  obtain ⟨upper, sign, digits, hne, hdigits⟩ := exponent
  cases sign with
  | none =>
      obtain ⟨c, digits, rfl⟩ := List.exists_cons_of_ne_nil hne
      exact readExponent_digit _ _ _ (hdigits c List.mem_cons_self) _
  | some minus => cases minus <;> exact readExponent_eq _ _ _ _

theorem Exponent.readScale_chars (exponent : Exponent) (negative : Bool) (significand : Nat)
    (power : Int) {rest : List Char} (hrest : EndsNumber rest) :
    readScale negative significand power (exponent.chars ++ rest)
      = (withExponent negative significand power exponent.down exponent.digits).map (·, rest) := by
  rw [← exponent.readExponent_tail negative significand power hrest, chars]
  split <;> rfl

theorem readUnsigned_whole (negative : Bool) (whole : Nat) {rest : List Char}
    (hrest : EndsDigits rest) :
    readUnsigned negative (Decimal.digitsOf whole ++ rest)
      = readFraction negative (gatherInteger 0 0 (Decimal.digitsOf whole)).1
          (gatherInteger 0 0 (Decimal.digitsOf whole)).2.1 rest := by
  rcases Nat.eq_zero_or_pos whole with rfl | hpos
  · exact hrest.readUnsigned_zero negative
  · obtain ⟨c, digits, hdigits, hc⟩ := Decimal.digitsOf_head hpos
    have hall : ∀ d ∈ c :: digits, d.isDigit = true := fun d hd =>
      Decimal.isDigit_of_mem_digitsOf (hdigits ▸ hd)
    obtain ⟨hdigit, hall⟩ := List.forall_mem_cons.mp hall
    have hfits : fits 0 c = true := by
      have := digitValue_le hdigit
      refine decide_eq_true ?_
      omega
    have hgather : gatherInteger 0 0 (c :: digits) = gatherInteger (digitValue c) 0 digits := by
      simp only [gatherInteger, hdigit, hfits, if_true, decide_true, Bool.and_true, Nat.mul_zero,
        Nat.zero_add]
    rw [hdigits, hgather]
    exact readUnsigned_digits hdigit hc hall hrest negative

namespace Literal

variable (literal : Literal)

theorem isDigit_whole : ∀ c ∈ Decimal.digitsOf literal.whole, c.isDigit = true :=
  fun _ hc => Decimal.isDigit_of_mem_digitsOf hc

/-- What follows the fraction does not carry its digits on. -/
theorem endsDigits_exponentChars {rest : List Char} (hrest : EndsNumber rest) :
    EndsDigits (literal.exponentChars ++ rest) := by
  unfold exponentChars
  split
  · exact hrest.endsDigits
  · rename_i exponent hexponent
    intro c hc
    rw [Exponent.chars, List.cons_append, List.head?_cons, Option.mem_some_iff] at hc
    rw [← hc]
    split <;> rfl

/-- What follows the integer part does not carry its digits on. -/
theorem endsDigits_tail {rest : List Char} (hrest : EndsNumber rest) :
    EndsDigits (literal.tail ++ rest) := by
  unfold tail
  split
  · exact literal.endsDigits_exponentChars hrest
  · intro c hc
    cases hc
    rfl

theorem readScale_exponentChars (significand : Nat) (power : Int) {rest : List Char}
    (hrest : EndsNumber rest) :
    readScale literal.negative significand power (literal.exponentChars ++ rest)
      = (match literal.exponent with
          | none => scale literal.negative significand power
          | some exponent =>
            withExponent literal.negative significand power exponent.down exponent.digits).map
        (·, rest) := by
  unfold exponentChars
  cases literal.exponent with
  | none => exact hrest.readScale _ _ _
  | some exponent => exact exponent.readScale_chars _ _ _ hrest

theorem readFraction_tail (significand dropped : Nat) {rest : List Char}
    (hrest : EndsNumber rest) :
    readFraction literal.negative significand dropped (literal.tail ++ rest)
      = readScale literal.negative (gatherFraction significand 0 literal.fraction).1
          ((dropped : Int) - (gatherFraction significand 0 literal.fraction).2.1)
          (literal.exponentChars ++ rest) := by
  have hends := literal.endsDigits_exponentChars hrest
  unfold tail
  split
  · rename_i hnil
    -- There is an exponent, since there is no fraction.
    obtain ⟨exponent, hexponent⟩ :=
      Option.isSome_iff_exists.mp (literal.isDecimal.resolve_left fun h => h hnil)
    rw [hnil]
    simp only [exponentChars, hexponent, List.nil_append, gatherFraction, Int.ofNat_zero,
      Int.sub_zero, Exponent.chars]
    split <;> rfl
  · rename_i hne
    obtain ⟨c, digits, hdigits⟩ := List.exists_cons_of_ne_nil hne
    have hall := literal.isDigit
    rw [hdigits] at hall ⊢
    show readFraction _ _ _ ('.' :: (c :: digits ++ literal.exponentChars ++ rest)) = _
    rw [List.append_assoc, readFraction_point hall hends]

/-- A literal is read by gathering its digits and scaling what was gathered. -/
theorem readNumber_chars {rest : List Char} (hrest : EndsNumber rest) :
    readNumber (literal.chars ++ rest) = literal.outcome.map (·, rest) := by
  have hunsigned : readUnsigned literal.negative
      (Decimal.digitsOf literal.whole ++ (literal.tail ++ rest))
      = literal.outcome.map (·, rest) := by
    rw [readUnsigned_whole _ _ (literal.endsDigits_tail hrest), literal.readFraction_tail _ _ hrest,
      literal.readScale_exponentChars _ _ hrest]
    rfl
  rw [← hunsigned, chars]
  cases literal.negative with
  | true => simp only [if_true, List.append_assoc, List.cons_append, List.nil_append, readNumber]
  | false =>
      simp only [Bool.false_eq_true, if_false, List.append_assoc, List.nil_append]
      obtain ⟨c, digits, hdigits, hc⟩ := Decimal.exists_digitsOf_eq_cons literal.whole
      rw [hdigits, List.cons_append, readNumber]
      intro rest' h
      cases h
      cases hc

theorem chars_head : ∃ c text, literal.chars = c :: text ∧ startsNumber c = true := by
  unfold chars
  split
  · exact ⟨'-', _, rfl, rfl⟩
  · obtain ⟨c, digits, hdigits, hc⟩ := Decimal.exists_digitsOf_eq_cons literal.whole
    rw [hdigits]
    exact ⟨c, _, rfl, by simp [startsNumber, hc]⟩

/-- A literal writes what it is read as, and no other number. -/
theorem writesNumber_iff {number : Number} :
    WritesNumber literal.chars number ↔ literal.outcome = .ok number := by
  constructor
  · intro h
    have hread := (literal.readNumber_chars endsNumber_nil).symm.trans (h.read [] endsNumber_nil)
    cases houtcome : literal.outcome with
    | error fault =>
        rw [houtcome] at hread
        cases hread
    | ok other =>
        rw [houtcome] at hread
        cases hread
        rfl
  · intro h
    refine ⟨literal.chars_head, fun rest hrest => ?_⟩
    rw [literal.readNumber_chars hrest, h]
    rfl

/-! ### Sizes -/

theorem length_digits_le :
    (Decimal.digitsOf literal.whole).length + literal.fraction.length ≤ literal.chars.length := by
  have htail : literal.fraction.length ≤ literal.tail.length := by
    unfold tail
    split
    · rename_i hnil
      rw [hnil]
      exact Nat.zero_le _
    · rw [List.length_append, List.length_cons]
      omega
  rw [chars, List.length_append, List.length_append]
  omega

theorem digits_lt : literal.digits < 10 ^ literal.chars.length := by
  have hall : ∀ c ∈ Decimal.digitsOf literal.whole ++ literal.fraction, c.isDigit = true :=
    List.forall_mem_append.mpr ⟨literal.isDigit_whole, literal.isDigit⟩
  have hbound := (Decimal.ofDigitChars_bounds hall 0).2
  rw [Nat.zero_add, Nat.one_mul, List.length_append] at hbound
  exact Nat.lt_of_lt_of_le hbound (Nat.pow_le_pow_right (by decide) literal.length_digits_le)

theorem magnitude_nonneg : 0 ≤ literal.magnitude := by
  unfold magnitude
  positivity

theorem magnitude_eq_zero_iff : literal.magnitude = 0 ↔ literal.digits = 0 := by
  rw [magnitude, mul_eq_zero, Nat.cast_eq_zero]
  exact ⟨fun h => h.resolve_right (by positivity), .inl⟩

theorem abs_value : |literal.value| = literal.magnitude := by
  unfold value
  split
  · rw [abs_neg, abs_of_nonneg literal.magnitude_nonneg]
  · exact abs_of_nonneg literal.magnitude_nonneg

/-- What is read has the sign of the literal, so it is as near as its magnitude is. -/
theorem abs_value_sub {x : Binary64} (hx : x.negative = literal.negative) :
    |x.value - literal.value| = |x.magnitude - literal.magnitude| := by
  unfold value Binary64.value
  rw [hx]
  split
  · rw [neg_sub_neg, abs_sub_comm]
  · rfl

variable {literal} in
/-- The number that a literal without a minus stands for, if its digits are behind the point. -/
theorem value_eq_div (hsign : literal.negative = false) {n k : Nat} (hdigits : literal.digits = n)
    (hpower : literal.power = -(k : Int)) : literal.value = n / 10 ^ k := by
  rw [value, hsign, if_neg Bool.false_ne_true, magnitude, hdigits, hpower, zpow_neg, zpow_natCast,
    div_eq_mul_inv]

/-! ### Accuracy -/

theorem power_eq {exponent : Exponent} (h : literal.exponent = some exponent) :
    literal.power = exponent.value - literal.fraction.length := by
  rw [power, h, Option.map_some, Option.getD_some]

/-- A literal with an exponent that is far below zero is next to nothing. -/
theorem magnitude_of_down (hlength : literal.chars.length < 2 ^ 30) {exponent : Exponent}
    (h : literal.exponent = some exponent) (hdown : exponent.down = true)
    (hlarge : 2 ^ 31 ≤ decimalValue exponent.digits) : literal.magnitude ≤ 2 ^ (-1076 : Int) := by
  have hdigits : (literal.digits : ℚ) ≤ 10 ^ (literal.chars.length : Int) := by
    rw [zpow_natCast]
    exact_mod_cast literal.digits_lt.le
  have hpower : literal.power ≤ -2 ^ 31 := by
    rw [literal.power_eq h, Exponent.value, if_pos hdown]
    omega
  calc literal.magnitude ≤ 10 ^ (literal.chars.length : Int) * 10 ^ literal.power := by
        unfold magnitude
        gcongr
    _ = 10 ^ (literal.chars.length + literal.power) := (zpow_add₀ (by norm_num) _ _).symm
    _ ≤ 10 ^ (-((2 * maxPower : Nat) : Int)) := by
        refine zpow_le_zpow_right₀ (by norm_num) ?_
        unfold maxPower
        omega
    _ = (1 : Nat) / 10 ^ (2 * maxPower) := by
        rw [zpow_neg, zpow_natCast, Nat.cast_one, one_div]
    _ ≤ 2 ^ (-1076 : Int) := quotient_far (by decide) (Nat.le_refl _)

/-- What was gathered within one part in `2 ^ 60` of a number is scaled to near the number. -/
theorem within_of_scale {negative : Bool} {significand : Nat} {power more : Int} {v : ℚ}
    {number : Number} (hsignificand : significand < 2 ^ 64) (hv : 0 ≤ v)
    (hnear : Within (1 / 2 ^ 60) 0 v (significand * 10 ^ power))
    (h : scale negative significand (power + more) = .ok number) :
    ∃ x, number = .float x ∧ x.negative = negative
      ∧ Within (1 / 2 ^ 49) (2 ^ (-1073 : Int)) (v * 10 ^ more) x.magnitude := by
  obtain ⟨x, hx, hsign, hscaled⟩ := scale_within hsignificand h
  refine ⟨x, hx, hsign, ?_⟩
  have hmore : (0 : ℚ) ≤ 10 ^ more := by positivity
  have hgathered := hnear.mul (Within.refl ((10 : ℚ) ^ more)) hv hmore (by positivity) hmore
    (by norm_num) le_rfl (by norm_num)
  rw [zpow_add₀ (by norm_num), ← mul_assoc] at hscaled
  refine (hgathered.trans hscaled (by positivity) (by norm_num) le_rfl (by norm_num)
    (by norm_num)).mono (by positivity) (by norm_num) ?_
  rw [mul_zero, add_zero, zero_add]

/-- **A literal is read within one part in `2 ^ 49` of what it stands for,** or within the smallest
numbers of the format. -/
theorem outcome_within (hlength : literal.chars.length < 2 ^ 30) {number : Number}
    (h : literal.outcome = .ok number) :
    ∃ x, number = .float x ∧ x.negative = literal.negative
      ∧ Within (1 / 2 ^ 49) (2 ^ (-1073 : Int)) literal.magnitude x.magnitude := by
  obtain ⟨hsignificand, hexact, hnear⟩ := gather_spec literal.isDigit_whole literal.isDigit
  unfold outcome at h
  generalize gather (Decimal.digitsOf literal.whole) literal.fraction = gathered at *
  obtain ⟨significand, power⟩ := gathered
  have hmagnitude : ∀ more : Int, literal.power = more - literal.fraction.length →
      literal.magnitude = literal.digits * 10 ^ (-(literal.fraction.length : Int)) * 10 ^ more := by
    intro more hmore
    rw [magnitude, hmore, sub_eq_neg_add, zpow_add₀ (by norm_num), mul_assoc]
  cases hexponent : literal.exponent with
  | none =>
      rw [hexponent] at h
      rw [hmagnitude 0 (by rw [Literal.power, hexponent]; rfl)]
      refine within_of_scale hsignificand (by positivity) hnear ?_
      rw [Int.add_zero]
      exact h
  | some exponent =>
      rw [hexponent] at h
      simp only [withExponent] at h
      split at h
      · rename_i hlarge
        split at h
        · cases h
        · rename_i hkept
          cases h
          refine ⟨_, rfl, rfl, ?_⟩
          have htiny : literal.magnitude ≤ 2 ^ (-1073 : Int) := by
            by_cases hdown : exponent.down = true
            · exact (literal.magnitude_of_down hlength hexponent hdown hlarge).trans
                (zpow_le_zpow_right₀ one_le_two (by decide))
            · -- Then nothing was gathered, so there is no digit but zeros.
              have hzero : significand = 0 := by
                by_contra hne
                exact hkept ⟨hne, hdown⟩
              have hdigits : literal.digits = 0 := by
                rcases hexact with hexact | ⟨-, hpos⟩
                · cases hexact
                  exact hzero
                · exact absurd hzero hpos.ne'
              rw [magnitude, hdigits, Nat.cast_zero, zero_mul]
              positivity
          have hzero : (Binary64.zero literal.negative).magnitude = 0 := by
            simp [Binary64.magnitude, Binary64.zero]
          have hnonneg := literal.magnitude_nonneg
          rw [hzero]
          constructor <;> linarith
      · rw [hmagnitude exponent.value (literal.power_eq hexponent)]
        exact within_of_scale hsignificand (by positivity) hnear h

/-! ### Literals that need no rounding -/

/-- A literal whose digits write at most `2 ^ 53`, and which stands for zero or for a number from
the smallest one with all bits up to `2 ^ 53`, or for a number of the format. -/
structure Short : Prop where
  digits_le : literal.digits ≤ 2 ^ 53
  normal : literal.magnitude = 0 ∨ 2 ^ (-1022 : Int) ≤ literal.magnitude
  fits : Fits literal.magnitude

namespace Short

variable {literal}

/-- The digits of a short literal are scaled as they are, unless the exponent alone decides. -/
theorem outcome_eq (h : literal.Short) (hlength : literal.chars.length < 2 ^ 30) :
    literal.outcome = scale literal.negative literal.digits literal.power
      ∨ (literal.digits = 0 ∧ literal.outcome = .ok (.float (.zero literal.negative)))
      ∨ (2 ^ 64 < literal.magnitude ∧ literal.outcome = .error .numberOutOfRange) := by
  have hgather : gather (Decimal.digitsOf literal.whole) literal.fraction
      = (literal.digits, -(literal.fraction.length : Int)) := by
    obtain ⟨-, hexact, -⟩ := gather_spec literal.isDigit_whole literal.isDigit
    refine hexact.resolve_right fun hlarge => ?_
    have hsmall := h.digits_le
    have := hlarge.1
    unfold digits at hsmall
    omega
  unfold outcome
  rw [hgather]
  cases hexponent : literal.exponent with
  | none =>
      have hpower : literal.power = -(literal.fraction.length : Int) := by
        rw [power, hexponent, Option.map_none, Option.getD_none, Int.zero_sub]
      rw [hpower]
      exact .inl rfl
  | some exponent =>
      have hpower := literal.power_eq hexponent
      by_cases hlarge : 2 ^ 31 ≤ decimalValue exponent.digits
      · simp only [withExponent, if_pos hlarge]
        by_cases hdigits : literal.digits = 0
        · exact .inr (.inl ⟨hdigits, if_neg fun hkept => hkept.1 hdigits⟩)
        · have hnormal := h.normal.resolve_left fun hzero =>
            hdigits (literal.magnitude_eq_zero_iff.mp hzero)
          have hup : ¬ exponent.down = true := by
            intro hdown
            have htiny := literal.magnitude_of_down hlength hexponent hdown hlarge
            have hlt : (2 : ℚ) ^ (-1076 : Int) < 2 ^ (-1022 : Int) :=
              zpow_lt_zpow_right₀ one_lt_two (by decide)
            linarith
          refine .inr (.inr ⟨?_, if_pos ⟨hdigits, hup⟩⟩)
          have hfraction := literal.length_digits_le
          have hmore : 22 < literal.power := by
            rw [hpower, Exponent.value, if_neg hup]
            omega
          refine lt_of_lt_of_le ?_ (le_large_product (Nat.pos_of_ne_zero hdigits) hmore)
          norm_num
      · left
        simp only [withExponent, if_neg hlarge]
        rw [hpower, Exponent.value, Int.sub_eq_add_neg, Int.add_comm]

theorem value_eq {x : Binary64} (hsign : x.negative = literal.negative)
    (hx : x.magnitude = literal.magnitude) : x.value = literal.value := by
  rw [value, Binary64.value, hsign, hx]

theorem zero_value (hdigits : literal.digits = 0) :
    (Binary64.zero literal.negative).value = literal.value := by
  refine value_eq rfl ?_
  rw [literal.magnitude_eq_zero_iff.mpr hdigits]
  simp [Binary64.magnitude, Binary64.zero]

/-- **A short literal that stands for an integer of 64 bits is read as it.** -/
theorem outcome_exact (h : literal.Short) (hlength : literal.chars.length < 2 ^ 30) {m : Nat}
    (hm : literal.magnitude = m) (hlt : m < 2 ^ 64) :
    ∃ x, literal.outcome = .ok (.float x) ∧ x.value = literal.value := by
  rcases h.outcome_eq hlength with hscale | ⟨hdigits, hzero⟩ | ⟨hlarge, -⟩
  · obtain ⟨x, hx, hsign, hmagnitude⟩ :=
      scale_exact literal.negative h.digits_le hm hlt (hm ▸ h.fits)
    exact ⟨x, hscale.trans hx, value_eq hsign (hmagnitude.trans hm.symm)⟩
  · exact ⟨_, hzero, zero_value hdigits⟩
  · have hlt' : (m : ℚ) < 2 ^ 64 := by exact_mod_cast hlt
    rw [hm] at hlarge
    exact absurd hlarge hlt'.not_gt

/-- **A short literal that is read as an integer of 64 bits stands for it.** -/
theorem outcome_whole (h : literal.Short) (hlength : literal.chars.length < 2 ^ 30)
    {x : Binary64} (hread : literal.outcome = .ok (.float x)) {n : Int} (hx : x.value = n)
    (hn : n.natAbs ≤ 2 ^ 64) : literal.value = n := by
  rcases h.outcome_eq hlength with hscale | ⟨hdigits, hzero⟩ | ⟨-, hfault⟩
  · rw [hread] at hscale
    have hmagnitude : x.magnitude = n.natAbs := by
      rw [← x.abs_value, hx, Nat.cast_natAbs, Int.cast_abs]
    obtain ⟨x', hsame, hsign, -⟩ := literal.outcome_within hlength hread
    cases hsame
    have hsmall := h.normal.imp_left literal.magnitude_eq_zero_iff.mp
    have hwhole := scale_whole h.digits_le hscale.symm hmagnitude hn hsmall h.fits
    rw [← hx, value_eq hsign (hmagnitude.trans hwhole.symm)]
  · rw [hread] at hzero
    cases hzero
    rw [← hx, zero_value hdigits]
  · rw [hread] at hfault
    cases hfault

end Short

end Literal

end NodeView.Json
