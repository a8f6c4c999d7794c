import NodeView.Proofs.Json.Number
/-!
# NodeView.Proofs.Json.NumberText

A number takes the same part of a text wherever it stands.

Each part of a number ends where its characters end: digits in front of anything but a digit,
the whole number in front of anything that does not carry it on. So what was read from a text is
read from the same characters in front of any other end (`readNumber_ok`). Gathering digits comes
to the same in front of whatever ends them (`gatherInteger_append`, `gatherFraction_append`), and
each further part of a number is a reader that takes the same characters (`Ending`).
-/

namespace NodeView.Json

open Text (decimalValue digitValue)

/-! ### Digits -/

/-- What stands behind digits does not carry them on. -/
def EndsDigits (rest : List Char) : Prop := ∀ c ∈ rest.head?, c.isDigit = false

theorem EndsNumber.endsDigits {rest : List Char} (h : EndsNumber rest) : EndsDigits rest :=
  fun c hc => (h c hc).1

theorem endsDigits_dropWhile (text : List Char) : EndsDigits (text.dropWhile Char.isDigit) := by
  intro c hc
  have hhead := List.head?_dropWhile_not Char.isDigit text
  rwa [hc] at hhead

theorem isDigit_of_mem_takeWhile (text : List Char) :
    ∀ c ∈ text.takeWhile Char.isDigit, c.isDigit = true :=
  List.all_eq_true.mp List.all_takeWhile

section

variable {digits rest : List Char} (hdigits : ∀ c ∈ digits, c.isDigit = true)
  (hrest : EndsDigits rest)
include hdigits hrest

theorem takeWhile_isDigit_append : (digits ++ rest).takeWhile Char.isDigit = digits := by
  rw [List.takeWhile_append_of_pos hdigits]
  cases rest with
  | nil => simp
  | cons c rest => simp [hrest c rfl]

theorem dropWhile_isDigit_append : (digits ++ rest).dropWhile Char.isDigit = rest := by
  rw [List.dropWhile_append_of_pos hdigits]
  cases rest with
  | nil => rfl
  | cons c rest => simp [hrest c rfl]

theorem gatherInteger_append (significand dropped : Nat) :
    gatherInteger significand dropped (digits ++ rest)
      = ((gatherInteger significand dropped digits).1,
          (gatherInteger significand dropped digits).2.1, rest) := by
  induction digits generalizing significand dropped with
  | nil =>
      cases rest with
      | nil => rfl
      | cons c rest => simp [gatherInteger, hrest c rfl]
  | cons c digits ih =>
      obtain ⟨hc, hdigits⟩ := List.forall_mem_cons.mp hdigits
      rw [List.cons_append, gatherInteger, gatherInteger]
      simp only [hc, if_true]
      split <;> exact ih hdigits _ _

theorem gatherFraction_append (significand taken : Nat) :
    gatherFraction significand taken (digits ++ rest)
      = ((gatherFraction significand taken digits).1,
          (gatherFraction significand taken digits).2.1, rest) := by
  induction digits generalizing significand taken with
  | nil =>
      cases rest with
      | nil => rfl
      | cons c rest => simp [gatherFraction, hrest c rfl]
  | cons c digits ih =>
      obtain ⟨hc, hdigits⟩ := List.forall_mem_cons.mp hdigits
      rw [List.cons_append, gatherFraction, gatherFraction]
      simp only [hc, if_true]
      split
      · exact ih hdigits _ _
      · rw [dropWhile_isDigit_append hdigits hrest]

end

/-! ### Endings -/

/-- A reader that takes the same part of a text whatever ends it. -/
def Ending (read : List Char → Reading Number) : Prop :=
  ∀ {text n rest}, read text = .ok (n, rest) → ∃ front, text = front ++ rest
    ∧ ∀ rest', EndsNumber rest' → read (front ++ rest') = .ok (n, rest')

/-- A number that needs no more of the text. -/
theorem eq_of_map_pair {outcome : Except Fault Number} {text rest : List Char} {n : Number}
    (h : outcome.map (·, text) = .ok (n, rest)) : outcome = .ok n ∧ text = rest := by
  cases outcome with
  | error fault => cases h
  | ok m =>
      cases h
      exact ⟨rfl, rfl⟩

/-- The number with an exponent that is written by these digits. -/
def withExponent (negative : Bool) (significand : Nat) (exponent : Int) (down : Bool)
    (digits : List Char) : Except Fault Number :=
  if 2 ^ 31 ≤ decimalValue digits then
    if significand ≠ 0 ∧ ¬ down then .error .numberOutOfRange
    else .ok (.float (Binary64.zero negative))
  else
    scale negative significand
      (exponent + (if down then -(decimalValue digits : Int) else decimalValue digits))

/-- Reads an exponent behind its sign. -/
def readMagnitude (negative : Bool) (significand : Nat) (exponent : Int) (down : Bool)
    (text : List Char) : Reading Number :=
  if text.takeWhile Char.isDigit = [] then
    if text = [] then .error .endInValue else .error .invalidNumber
  else
    (withExponent negative significand exponent down (text.takeWhile Char.isDigit)).map
      (·, text.dropWhile Char.isDigit)

section

variable (negative : Bool) (significand : Nat) (exponent : Int)

theorem readExponent_eq (text : List Char) :
    readExponent negative significand exponent text
      = match text with
        | '+' :: rest => readMagnitude negative significand exponent false rest
        | '-' :: rest => readMagnitude negative significand exponent true rest
        | _ => readMagnitude negative significand exponent false text := by
  have hbody : ∀ (down : Bool) (text : List Char),
      (if text.takeWhile Char.isDigit = [] then
        if text = [] then .error .endInValue else .error .invalidNumber
      else if 2 ^ 31 ≤ decimalValue (text.takeWhile Char.isDigit) then
        if significand ≠ 0 ∧ ¬ down then .error .numberOutOfRange
        else .ok (.float (Binary64.zero negative), text.dropWhile Char.isDigit)
      else
        (scale negative significand (exponent + (if down
          then -(decimalValue (text.takeWhile Char.isDigit) : Int)
          else decimalValue (text.takeWhile Char.isDigit)))).map
            (·, text.dropWhile Char.isDigit) : Reading Number)
        = readMagnitude negative significand exponent down text := by
    intro down text
    unfold readMagnitude withExponent
    repeat' split
    all_goals rfl
  symm
  split
  · exact (hbody false _).symm
  · exact (hbody true _).symm
  · simp only [readExponent]
    exact (hbody false _).symm

theorem readMagnitude_ok {down : Bool} {text rest : List Char} {n : Number}
    (h : readMagnitude negative significand exponent down text = .ok (n, rest)) :
    ∃ c digits, text = c :: digits ++ rest ∧ c.isDigit = true
      ∧ ∀ rest', EndsNumber rest' →
        readMagnitude negative significand exponent down (c :: digits ++ rest')
          = .ok (n, rest') := by
  unfold readMagnitude at h
  split at h
  · split at h <;> cases h
  · rename_i hne
    obtain ⟨hn, rfl⟩ := eq_of_map_pair h
    obtain ⟨c, digits, hdigits⟩ := List.exists_cons_of_ne_nil hne
    have hall := isDigit_of_mem_takeWhile text
    rw [hdigits] at hn hall
    refine ⟨c, digits, ?_, hall c List.mem_cons_self, ?_⟩
    · rw [← hdigits, List.takeWhile_append_dropWhile]
    · intro rest' hrest'
      rw [readMagnitude, takeWhile_isDigit_append hall hrest'.endsDigits,
        dropWhile_isDigit_append hall hrest'.endsDigits, if_neg (List.cons_ne_nil _ _), hn]
      rfl

theorem readExponent_digit {c : Char} (hc : c.isDigit = true) (text : List Char) :
    readExponent negative significand exponent (c :: text)
      = readMagnitude negative significand exponent false (c :: text) := by
  rw [readExponent_eq]
  -- A digit is no sign.
  split
  · rename_i heq
    cases heq
    cases hc
  · rename_i heq
    cases heq
    cases hc
  · rfl

theorem ending_readExponent : Ending (readExponent negative significand exponent) := by
  intro text n rest h
  rw [readExponent_eq] at h
  split at h
  · obtain ⟨c, digits, rfl, -, hread⟩ := readMagnitude_ok _ _ _ h
    exact ⟨'+' :: c :: digits, rfl, fun rest' hrest' => by
      rw [readExponent_eq]
      exact hread rest' hrest'⟩
  · obtain ⟨c, digits, rfl, -, hread⟩ := readMagnitude_ok _ _ _ h
    exact ⟨'-' :: c :: digits, rfl, fun rest' hrest' => by
      rw [readExponent_eq]
      exact hread rest' hrest'⟩
  · obtain ⟨c, digits, rfl, hc, hread⟩ := readMagnitude_ok _ _ _ h
    exact ⟨c :: digits, rfl, fun rest' hrest' =>
      (readExponent_digit _ _ _ hc _).trans (hread rest' hrest')⟩

theorem EndsNumber.readScale {rest : List Char} (h : EndsNumber rest) :
    readScale negative significand exponent rest
      = (scale negative significand exponent).map (·, rest) := by
  cases rest with
  | nil => rfl
  | cons c rest =>
      obtain ⟨-, -, hlower, hupper⟩ := h c rfl
      unfold Json.readScale
      split <;> simp_all

theorem ending_readScale : Ending (readScale negative significand exponent) := by
  intro text n rest h
  have hexponent := @ending_readExponent negative significand exponent
  unfold readScale at h
  split at h
  · obtain ⟨front, rfl, hread⟩ := hexponent h
    exact ⟨'e' :: front, rfl, hread⟩
  · obtain ⟨front, rfl, hread⟩ := hexponent h
    exact ⟨'E' :: front, rfl, hread⟩
  · obtain ⟨hn, rfl⟩ := eq_of_map_pair h
    refine ⟨[], rfl, fun rest' hrest' => ?_⟩
    rw [List.nil_append, hrest'.readScale, hn]
    rfl

end

/-- What begins as another text that does not carry on digits does not carry them on either. -/
theorem EndsDigits.append {front rest rest' : List Char} (h : EndsDigits (front ++ rest))
    (hrest' : EndsNumber rest') : EndsDigits (front ++ rest') := by
  cases front with
  | nil => exact hrest'.endsDigits
  | cons c front =>
      intro d hd
      exact h d hd

theorem EndsNumber.readFraction {rest : List Char} (h : EndsNumber rest) (negative : Bool)
    (significand dropped : Nat) :
    readFraction negative significand dropped rest
      = (if dropped = 0 then .ok (integerNumber negative significand)
          else scale negative significand dropped).map (·, rest) := by
  by_cases hdropped : dropped = 0
  · rw [if_pos hdropped, hdropped]
    exact readFraction_end h negative significand
  · rw [if_neg hdropped, ← h.readScale]
    cases rest with
    | nil => simp [Json.readFraction, hdropped]
    | cons c rest =>
        obtain ⟨-, hpoint, -, -⟩ := h c rfl
        unfold Json.readFraction
        split <;> simp_all

theorem readFraction_point {digits rest : List Char} {c : Char}
    (hdigits : ∀ d ∈ c :: digits, d.isDigit = true) (hrest : EndsDigits rest) (negative : Bool)
    (significand dropped : Nat) :
    readFraction negative significand dropped ('.' :: (c :: digits ++ rest))
      = readScale negative (gatherFraction significand 0 (c :: digits)).1
          ((dropped : Int) - (gatherFraction significand 0 (c :: digits)).2.1) rest := by
  have hc := hdigits c List.mem_cons_self
  have hgather := gatherFraction_append hdigits hrest significand 0
  rw [List.cons_append] at hgather ⊢
  simp only [readFraction, hc, if_true, hgather]

theorem ending_readFraction (negative : Bool) (significand dropped : Nat) :
    Ending (readFraction negative significand dropped) := by
  intro text n rest h
  unfold readFraction at h
  split at h
  · split at h
    · cases h
    · rename_i c more
      split at h
      · rename_i hc
        obtain ⟨digits, hdigits⟩ : ∃ digits, (c :: more).takeWhile Char.isDigit = c :: digits :=
          ⟨more.takeWhile Char.isDigit, by rw [List.takeWhile_cons, if_pos hc]⟩
        have hall := isDigit_of_mem_takeWhile (c :: more)
        have hbehind := endsDigits_dropWhile (c :: more)
        have hsplit := List.takeWhile_append_dropWhile (p := Char.isDigit) (l := c :: more)
        rw [hdigits] at hall hsplit
        rw [← hsplit, gatherFraction_append hall hbehind] at h
        obtain ⟨front, hfront, hread⟩ := @ending_readScale negative _ _ _ _ _ h
        refine ⟨'.' :: (c :: digits ++ front), ?_, ?_⟩
        · rw [← hsplit, hfront]
          simp only [List.cons_append, List.append_assoc]
        · intro rest' hrest'
          rw [List.cons_append, List.append_assoc,
            readFraction_point hall ((hfront ▸ hbehind).append hrest')]
          exact hread rest' hrest'
      · cases h
  · obtain ⟨front, rfl, hread⟩ := @ending_readExponent negative significand dropped _ _ _ h
    exact ⟨'e' :: front, rfl, hread⟩
  · obtain ⟨front, rfl, hread⟩ := @ending_readExponent negative significand dropped _ _ _ h
    exact ⟨'E' :: front, rfl, hread⟩
  · rename_i hlower hupper
    have houtcome : (if dropped = 0 then .ok (integerNumber negative significand)
        else scale negative significand dropped).map (·, text) = .ok (n, rest) := by
      split at h
      · rename_i hdropped
        rw [if_pos hdropped]
        exact h
      · rename_i hdropped
        rw [if_neg hdropped, ← h]
        unfold readScale
        split
        · exact absurd rfl (hlower _)
        · exact absurd rfl (hupper _)
        · rfl
    obtain ⟨hn, rfl⟩ := eq_of_map_pair houtcome
    refine ⟨[], rfl, fun rest' hrest' => ?_⟩
    rw [List.nil_append, hrest'.readFraction, hn]
    rfl

theorem EndsDigits.readUnsigned_zero {rest : List Char} (h : EndsDigits rest) (negative : Bool) :
    readUnsigned negative ('0' :: rest) = readFraction negative 0 0 rest := by
  cases rest with
  | nil => rfl
  | cons c rest => simp [readUnsigned, h c rfl]

theorem readUnsigned_digits {digits rest : List Char} {c : Char} (hc : c.isDigit = true)
    (hzero : c ≠ '0') (hdigits : ∀ d ∈ digits, d.isDigit = true) (hrest : EndsDigits rest)
    (negative : Bool) :
    readUnsigned negative (c :: digits ++ rest)
      = readFraction negative (gatherInteger (digitValue c) 0 digits).1
          (gatherInteger (digitValue c) 0 digits).2.1 rest := by
  rw [List.cons_append, readUnsigned]
  · simp only [hc, if_true, gatherInteger_append hdigits hrest]
  · exact hzero

/-- A number behind its sign is read from the same characters whatever ends it, and the first of
them is a digit. -/
theorem readUnsigned_ok {negative : Bool} {text rest : List Char} {n : Number}
    (h : readUnsigned negative text = .ok (n, rest)) :
    ∃ c front, text = c :: front ++ rest ∧ c.isDigit = true
      ∧ ∀ rest', EndsNumber rest' →
        readUnsigned negative (c :: front ++ rest') = .ok (n, rest') := by
  cases text with
  | nil => cases h
  | cons c text =>
      by_cases hzero : c = '0'
      · subst hzero
        have hbehind : EndsDigits text := by
          intro d hd
          cases text with
          | nil => cases hd
          | cons e text =>
              cases hd
              cases hdigit : d.isDigit with
              | false => rfl
              | true => simp [readUnsigned, hdigit] at h
        rw [hbehind.readUnsigned_zero] at h
        obtain ⟨front, rfl, hread⟩ := ending_readFraction _ _ _ h
        refine ⟨'0', front, rfl, rfl, fun rest' hrest' => ?_⟩
        rw [List.cons_append, (hbehind.append hrest').readUnsigned_zero]
        exact hread rest' hrest'
      · cases hc : c.isDigit with
        | false =>
            rw [readUnsigned] at h
            · simp [hc] at h
            · exact hzero
        | true =>
            have hall := isDigit_of_mem_takeWhile text
            have hbehind := endsDigits_dropWhile text
            have hsplit := List.takeWhile_append_dropWhile (p := Char.isDigit) (l := text)
            rw [← hsplit, ← List.cons_append, readUnsigned_digits hc hzero hall hbehind] at h
            obtain ⟨front, hfront, hread⟩ := ending_readFraction _ _ _ h
            refine ⟨c, text.takeWhile Char.isDigit ++ front, ?_, hc, fun rest' hrest' => ?_⟩
            · rw [List.cons_append, List.append_assoc, ← hfront, hsplit]
            · rw [← List.cons_append, List.append_assoc,
                readUnsigned_digits hc hzero hall ((hfront ▸ hbehind).append hrest')]
              exact hread rest' hrest'

/-- **A number is read from the same characters whatever ends it.** -/
theorem readNumber_ok {text rest : List Char} {n : Number}
    (h : readNumber text = .ok (n, rest)) :
    ∃ c front, text = c :: front ++ rest ∧ startsNumber c = true
      ∧ ∀ rest', EndsNumber rest' → readNumber (c :: front ++ rest') = .ok (n, rest') := by
  unfold readNumber at h
  split at h
  · obtain ⟨c, front, rfl, -, hread⟩ := readUnsigned_ok h
    exact ⟨'-', c :: front, rfl, rfl, hread⟩
  · obtain ⟨c, front, rfl, hc, hread⟩ := readUnsigned_ok h
    refine ⟨c, front, rfl, by rw [startsNumber, hc, Bool.or_true], fun rest' hrest' => ?_⟩
    -- A digit is no sign.
    rw [readNumber]
    · exact hread rest' hrest'
    · intro more hmore
      cases hmore
      cases hc

end NodeView.Json
