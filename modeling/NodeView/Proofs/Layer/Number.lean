import Mathlib.Data.List.Infix
import NodeView.Layer.EnvironmentValue
import NodeView.Proofs.Json.NumberText
import NodeView.Proofs.Settings.OfLayer
/-!
# NodeView.Proofs.Layer.Number

The numbers among the bare texts of variables.

`Number` is the grammar of the texts that are read as numbers: whole numbers that fit 64 bits, and
digits with a point. A bare text is read as itself if it is none of these (`bare_eq_text`), and
otherwise not as a text (`Number.text?_bare`).
-/

namespace NodeView.EnvironmentValue

/-! ### Grammar -/

/-- One or more decimal digits. -/
structure Digits (text : List Char) : Prop where
  ne_nil : text ≠ []
  isDigit : ∀ c ∈ text, c.isDigit = true

/-- A sign, or nothing. -/
def IsSign (text : List Char) : Prop := text = [] ∨ text = ['+'] ∨ text = ['-']

/-- An exponent with its letter, or nothing. -/
inductive Exponent : List Char → Prop
  | missing : Exponent []
  | written {letter : Char} {sign digits : List Char} (hletter : letter = 'e' ∨ letter = 'E')
      (hsign : IsSign sign) (hdigits : Digits digits) : Exponent (letter :: (sign ++ digits))

/-- A bare text that is read as a number: a whole number that fits 64 bits, or digits with a
point. -/
inductive Number : List Char → Prop
  | natural {digits : List Char} (hdigits : Digits digits)
      (hsize : Text.decimalValue digits < 2 ^ 64) : Number digits
  | positive {digits : List Char} (hdigits : Digits digits)
      (hsize : Text.decimalValue digits < 2 ^ 64) : Number ('+' :: digits)
  | negative {digits : List Char} (hdigits : Digits digits)
      (hsize : Text.decimalValue digits ≤ 2 ^ 63) : Number ('-' :: digits)
  | decimal {sign whole places exponent : List Char} (hsign : IsSign sign)
      (hdigits : Digits (whole ++ places)) (hexponent : Exponent exponent) :
      Number (sign ++ (whole ++ '.' :: (places ++ exponent)))

/-! ### What is read as a number is one -/

theorem number_of_unsigned? {text : List Char} {n : Nat} (h : unsigned? text = some n) :
    Number text := by
  rw [unsigned?.eq_def] at h
  split at h <;> simp only [Option.ite_none_right_eq_some] at h
  · obtain ⟨⟨hne, hall, hsize⟩, _⟩ := h
    exact .positive ⟨hne, List.all_eq_true.mp hall⟩ hsize
  · obtain ⟨⟨hne, hall, hsize⟩, _⟩ := h
    exact .natural ⟨hne, List.all_eq_true.mp hall⟩ hsize

theorem number_of_negative? {text : List Char} {n : Int} (h : negative? text = some n) :
    Number text := by
  rw [negative?.eq_def] at h
  split at h
  · split at h
    · rename_i hdigits
      obtain ⟨hne, hall, hsize⟩ := hdigits
      exact .negative ⟨hne, List.all_eq_true.mp hall⟩ hsize
    · cases h
  · cases h

theorem exists_sign (text : List Char) :
    ∃ sign, IsSign sign ∧ text = sign ++ (Extended.splitSign text).2 := by
  rw [Extended.splitSign.eq_def]
  split
  · exact ⟨['-'], .inr (.inr rfl), rfl⟩
  · exact ⟨['+'], .inr (.inl rfl), rfl⟩
  · exact ⟨[], .inl rfl, rfl⟩

theorem exponent_of_exponentOf? {text : List Char} {n : Int}
    (h : Extended.exponentOf? text = some n) : Exponent text := by
  cases text with
  | nil => exact .missing
  | cons letter rest =>
      rw [Extended.exponentOf?] at h
      dsimp only at h
      split at h
      · rename_i hexponent
        obtain ⟨hletter, hne, hall⟩ := hexponent
        obtain ⟨sign, hsign, hrest⟩ := exists_sign rest
        rw [hrest]
        exact .written hletter hsign ⟨hne, List.all_eq_true.mp hall⟩
      · cases h

theorem IsSign.point_not_mem {text : List Char} (h : IsSign text) : '.' ∉ text := by
  rcases h with rfl | rfl | rfl <;> decide

theorem Exponent.point_not_mem {text : List Char} (h : Exponent text) : '.' ∉ text := by
  cases h with
  | missing => exact List.not_mem_nil
  | written hletter hsign hdigits =>
      intro hmem
      rcases List.mem_cons.mp hmem with rfl | hmem
      · rcases hletter with h | h <;> cases h
      · rcases List.mem_append.mp hmem with hmem | hmem
        · exact hsign.point_not_mem hmem
        · exact absurd (hdigits.isDigit _ hmem) (by decide)

theorem number_of_ofChars? {text : List Char} {x : Extended} (h : Extended.ofChars? text = some x)
    (hpoint : '.' ∈ text) : Number text := by
  obtain ⟨sign, hsign, htext⟩ := exists_sign text
  rw [Extended.ofChars?] at h
  generalize Extended.splitSign text = parts at h htext
  obtain ⟨negative, rest⟩ := parts
  subst htext
  have hwhole := Json.isDigit_of_mem_takeWhile rest
  rw [← List.takeWhile_append_dropWhile (p := Char.isDigit) (l := rest)] at hpoint ⊢
  dsimp only at h
  split at h <;> dsimp only at h <;> split at h
  · cases h
  · rename_i places hbehind hne
    obtain ⟨exponent, hexponent, _⟩ := Option.map_eq_some_iff.mp h
    have hplaces := Json.isDigit_of_mem_takeWhile places
    rw [hbehind, ← List.takeWhile_append_dropWhile (p := Char.isDigit) (l := places)]
    exact .decimal hsign ⟨hne, fun c hc => (List.mem_append.mp hc).elim (hwhole c) (hplaces c)⟩
      (exponent_of_exponentOf? hexponent)
  · cases h
  · -- Without a point behind the digits there is none at all.
    obtain ⟨exponent, hexponent, _⟩ := Option.map_eq_some_iff.mp h
    exfalso
    rcases List.mem_append.mp hpoint with hmem | hmem
    · exact hsign.point_not_mem hmem
    · rcases List.mem_append.mp hmem with hmem | hmem
      · exact absurd (hwhole _ hmem) (by decide)
      · exact (exponent_of_exponentOf? hexponent).point_not_mem hmem

/-- What is no number is bare text. -/
theorem bare_eq_text {text : List Char} (h : ¬ Number text) :
    bare text = .text (String.ofList text) := by
  have hreal : (if text.contains '.' then Extended.ofChars? text else none) = none := by
    rw [Option.eq_none_iff_forall_ne_some]
    intro x hx
    rw [Option.ite_none_right_eq_some] at hx
    exact h (number_of_ofChars? hx.2 (by simpa using hx.1))
  have hunsigned : unsigned? text = none :=
    Option.eq_none_iff_forall_ne_some.mpr fun n hn => h (number_of_unsigned? hn)
  have hnegative : negative? text = none :=
    Option.eq_none_iff_forall_ne_some.mpr fun n hn => h (number_of_negative? hn)
  simp only [bare, hreal, hunsigned, hnegative]

/-! ### Numbers are read as such -/

theorem splitSign_append {sign rest : List Char} (hsign : IsSign sign)
    (hrest : ∀ c ∈ rest.head?, c ≠ '-' ∧ c ≠ '+') :
    (Extended.splitSign (sign ++ rest)).2 = rest := by
  rcases hsign with rfl | rfl | rfl
  · rw [List.nil_append, Extended.splitSign.eq_def]
    split
    · exact absurd rfl (hrest '-' rfl).1
    · exact absurd rfl (hrest '+' rfl).2
    · rfl
  · rfl
  · rfl

theorem ne_sign_of_isDigit {c : Char} (h : c.isDigit = true) : c ≠ '-' ∧ c ≠ '+' := by
  constructor <;> rintro rfl <;> exact absurd h (by decide)

theorem Digits.head_ne_sign {digits : List Char} (h : Digits digits) :
    ∀ c ∈ digits.head?, c ≠ '-' ∧ c ≠ '+' :=
  fun c hc => ne_sign_of_isDigit (h.isDigit c (List.mem_of_mem_head? hc))

theorem Exponent.exponentOf?_ne_none {text : List Char} (h : Exponent text) :
    Extended.exponentOf? text ≠ none := by
  cases h with
  | missing => simp [Extended.exponentOf?]
  | @written letter sign digits hletter hsign hdigits =>
      rw [Extended.exponentOf?]
      have hrest := splitSign_append hsign hdigits.head_ne_sign
      generalize Extended.splitSign (sign ++ digits) = parts at hrest ⊢
      obtain ⟨negative, rest⟩ := parts
      subst hrest
      dsimp only
      rw [if_pos ⟨hletter, hdigits.ne_nil, List.all_eq_true.mpr hdigits.isDigit⟩]
      exact Option.some_ne_none _

theorem Exponent.endsDigits {text : List Char} (h : Exponent text) : Json.EndsDigits text := by
  intro c hc
  cases h with
  | missing => cases hc
  | written hletter hsign hdigits =>
      cases hc
      rcases hletter with rfl | rfl <;> rfl

theorem unsigned?_ne_none {digits : List Char} (hdigits : Digits digits)
    (hsize : Text.decimalValue digits < 2 ^ 64) :
    unsigned? digits ≠ none ∧ unsigned? ('+' :: digits) ≠ none := by
  have hread := And.intro hdigits.ne_nil
    (And.intro (List.all_eq_true.mpr hdigits.isDigit) hsize)
  constructor
  · rw [unsigned?, if_pos hread]
    · exact Option.some_ne_none _
    · rintro rest rfl
      exact (hdigits.head_ne_sign '+' rfl).2 rfl
  · rw [unsigned?, if_pos hread]
    exact Option.some_ne_none _

theorem ofChars?_ne_none {sign whole places exponent : List Char} (hsign : IsSign sign)
    (hdigits : Digits (whole ++ places)) (hexponent : Exponent exponent) :
    Extended.ofChars? (sign ++ (whole ++ '.' :: (places ++ exponent))) ≠ none := by
  have hwhole : ∀ c ∈ whole, c.isDigit = true :=
    fun c hc => hdigits.isDigit c (List.mem_append_left _ hc)
  have hplaces : ∀ c ∈ places, c.isDigit = true :=
    fun c hc => hdigits.isDigit c (List.mem_append_right _ hc)
  have hpoint : Json.EndsDigits ('.' :: (places ++ exponent)) := by
    intro c hc
    cases hc
    rfl
  have hsplit : (Extended.splitSign (sign ++ (whole ++ '.' :: (places ++ exponent)))).2
      = whole ++ '.' :: (places ++ exponent) := by
    refine splitSign_append hsign fun c hc => ?_
    cases whole with
    | nil =>
        cases hc
        exact ⟨by decide, by decide⟩
    | cons d whole =>
        cases hc
        exact ne_sign_of_isDigit (hwhole _ List.mem_cons_self)
  rw [Extended.ofChars?]
  generalize Extended.splitSign (sign ++ (whole ++ '.' :: (places ++ exponent))) = parts
    at hsplit ⊢
  obtain ⟨negative, rest⟩ := parts
  subst hsplit
  simp only [Json.takeWhile_isDigit_append hwhole hpoint,
    Json.dropWhile_isDigit_append hwhole hpoint,
    Json.takeWhile_isDigit_append hplaces hexponent.endsDigits,
    Json.dropWhile_isDigit_append hplaces hexponent.endsDigits, if_neg hdigits.ne_nil]
  simpa using hexponent.exponentOf?_ne_none

/-- A bare text that is a number is no text. -/
theorem Number.text?_bare {text : List Char} (h : Number text) (origin : Origin) :
    (Entry.scalar origin (bare text)).text? = none := by
  have hsome : (if text.contains '.' then Extended.ofChars? text else none) ≠ none ∨
      unsigned? text ≠ none ∨ negative? text ≠ none := by
    cases h with
    | natural hdigits hsize => exact .inr (.inl (unsigned?_ne_none hdigits hsize).1)
    | positive hdigits hsize => exact .inr (.inl (unsigned?_ne_none hdigits hsize).2)
    | negative hdigits hsize =>
        refine .inr (.inr ?_)
        rw [negative?, if_pos ⟨hdigits.ne_nil, List.all_eq_true.mpr hdigits.isDigit, hsize⟩]
        exact Option.some_ne_none _
    | decimal hsign hdigits hexponent =>
        refine .inl ?_
        rw [if_pos (by simp)]
        exact ofChars?_ne_none hsign hdigits hexponent
  rw [bare]
  split
  · rfl
  · rename_i hreal
    split
    · rfl
    · rename_i hunsigned
      split
      · rfl
      · rename_i hnegative
        exact absurd hsome (by simp only [hreal, hunsigned, hnegative]; decide)

end NodeView.EnvironmentValue
