import NodeView.Json.Printer
import NodeView.Json.Text
/-!
# NodeView.Proofs.Json.Spelling

The ways to spell a string in a JSON text.

A character stands for itself unless it is a quote, a backslash or a control character; some
have a short escape; all can be given by the number of their code unit, or of two code units
outside the basic plane. However its characters are spelled, the string is read
(`SpellsAll.readString`). What a string is written with is one such spelling
(`spellsAll_flatMap`).
-/

namespace NodeView.Json

open Text (hexValue? hexValue?_digitChar hexValue?_lt)

/-- The letters of the short escapes and the characters they stand for. -/
def shortEscapes : List (Char × Char) :=
  [('"', '"'), ('\\', '\\'), ('/', '/'), ('b', '\x08'), ('f', '\x0c'), ('n', '\n'), ('r', '\r'),
   ('t', '\t')]

/-- Four hexadecimal digits and the code unit they write. -/
inductive WritesUnit : List Char → Nat → Prop where
  | digits {a b c d : Char} {w x y z : Nat} (ha : hexValue? a = some w) (hb : hexValue? b = some x)
      (hc : hexValue? c = some y) (hd : hexValue? d = some z) :
      WritesUnit [a, b, c, d] (((w * 16 + x) * 16 + y) * 16 + z)

/-- A spelling of a character inside a string. -/
inductive Spells : List Char → Char → Prop where
  | itself {c : Char} (hquote : c ≠ '"') (hbackslash : c ≠ '\\') (hcontrol : 0x20 ≤ c.toNat) :
      Spells [c] c
  | short {letter c : Char} (h : (letter, c) ∈ shortEscapes) : Spells ['\\', letter] c
  | unit {digits : List Char} {c : Char} (h : WritesUnit digits c.toNat) :
      Spells ('\\' :: 'u' :: digits) c
  | pair {first second : List Char} {high low : Nat} {c : Char} (hfirst : WritesUnit first high)
      (hsecond : WritesUnit second low) (hhigh : isHighSurrogate high = true)
      (hlow : isLowSurrogate low = true) (hc : joinSurrogates high low = c.toNat) :
      Spells ('\\' :: 'u' :: (first ++ '\\' :: 'u' :: second)) c

/-- A spelling of some characters, one after the other. -/
inductive SpellsAll : List Char → List Char → Prop where
  | nil : SpellsAll [] []
  | cons {text more : List Char} {c : Char} {cs : List Char} (hc : Spells text c)
      (hcs : SpellsAll more cs) : SpellsAll (text ++ more) (c :: cs)

/-- Characters that need no escape spell themselves. -/
theorem spellsAll_self {cs : List Char}
    (h : ∀ c ∈ cs, c ≠ '"' ∧ c ≠ '\\' ∧ 0x20 ≤ c.toNat) : SpellsAll cs cs := by
  induction cs with
  | nil => exact .nil
  | cons c cs ih =>
      obtain ⟨⟨hquote, hbackslash, hcontrol⟩, hcs⟩ := List.forall_mem_cons.mp h
      exact .cons (.itself hquote hbackslash hcontrol) (ih hcs)

/-! ### Reading -/

theorem WritesUnit.readHex {digits : List Char} {n : Nat} (h : WritesUnit digits n)
    (rest : List Char) : readHex (digits ++ rest) = .ok (n, rest) := by
  cases h with
  | digits ha hb hc hd =>
      simp only [List.cons_append, List.nil_append, Json.readHex, ha, hb, hc, hd]

/-- The code point of a character is no half of a surrogate pair. -/
theorem not_surrogate (c : Char) :
    isHighSurrogate c.toNat = false ∧ isLowSurrogate c.toNat = false := by
  have hvalid : c.toNat < 0xD800 ∨ 0xDFFF < c.toNat ∧ c.toNat < 0x110000 := c.valid
  simp only [isHighSurrogate, isLowSurrogate, Bool.and_eq_false_iff, decide_eq_false_iff_not]
  omega

theorem readUnicodeEscape_unit {digits : List Char} {c : Char} (h : WritesUnit digits c.toNat)
    (rest : List Char) : readUnicodeEscape (digits ++ rest) = .ok (c, rest) := by
  obtain ⟨hhigh, hlow⟩ := not_surrogate c
  simp only [readUnicodeEscape, h.readHex, hhigh, hlow, Bool.false_eq_true, if_false,
    Char.ofNat_toNat]

theorem not_low_of_high {n : Nat} (h : isHighSurrogate n = true) : isLowSurrogate n = false := by
  simp only [isHighSurrogate, isLowSurrogate, Bool.and_eq_true, Bool.and_eq_false_iff,
    decide_eq_true_eq, decide_eq_false_iff_not] at h ⊢
  omega

theorem readEscape_short {letter c : Char} (h : (letter, c) ∈ shortEscapes) (rest : List Char) :
    readEscape (letter :: rest) = .ok (c, rest) := by
  simp only [shortEscapes, List.mem_cons, Prod.mk.injEq, List.not_mem_nil, or_false] at h
  rcases h with ⟨rfl, rfl⟩ | ⟨rfl, rfl⟩ | ⟨rfl, rfl⟩ | ⟨rfl, rfl⟩ | ⟨rfl, rfl⟩ | ⟨rfl, rfl⟩
    | ⟨rfl, rfl⟩ | ⟨rfl, rfl⟩ <;> rfl

/-- A spelling begins with no quote, so it does not end the string. -/
theorem Spells.readStringFrom {text : List Char} {c : Char} (h : Spells text c) (done : List Char)
    (step : Char) (bound rest : List Char) :
    readStringFrom done (step :: bound) (text ++ rest)
      = readStringFrom (c :: done) bound rest := by
  cases h with
  | itself hquote hbackslash hcontrol =>
      rw [List.singleton_append, Json.readStringFrom]
      · rw [if_neg (Nat.not_lt.mpr hcontrol)]
      · exact hquote
      · exact hbackslash
  | short h =>
      simp only [List.cons_append, List.nil_append, Json.readStringFrom, readEscape_short h]
  | unit h =>
      simp only [List.cons_append, Json.readStringFrom, readEscape, readUnicodeEscape_unit h]
  | pair hfirst hsecond hhigh hlow hc =>
      simp only [List.cons_append, List.append_assoc, Json.readStringFrom, readEscape,
        readUnicodeEscape, hfirst.readHex, not_low_of_high hhigh, hhigh, hsecond.readHex, hlow,
        if_true, Bool.false_eq_true, if_false, hc, Char.ofNat_toNat]

theorem SpellsAll.readStringFrom {text cs : List Char} (h : SpellsAll text cs) (done : List Char)
    {bound : List Char} (hbound : cs.length < bound.length) (rest : List Char) :
    readStringFrom done bound (text ++ '"' :: rest)
      = .ok (String.ofList (done.reverse ++ cs), rest) := by
  induction h generalizing done bound with
  | nil =>
      cases bound with
      | nil => cases hbound
      | cons step bound => rw [List.nil_append, Json.readStringFrom, List.append_nil]
  | cons hc _ ih =>
      cases bound with
      | nil => cases hbound
      | cons step bound =>
          rw [List.append_assoc, hc.readStringFrom, ih _ (Nat.lt_of_succ_lt_succ hbound),
            List.reverse_cons, List.append_assoc, List.singleton_append]

theorem Spells.length_pos {text : List Char} {c : Char} (h : Spells text c) : 0 < text.length := by
  cases h <;> exact Nat.succ_pos _

theorem SpellsAll.length_le {text cs : List Char} (h : SpellsAll text cs) :
    cs.length ≤ text.length := by
  induction h with
  | nil => exact Nat.le_refl 0
  | cons hc _ ih =>
      have := hc.length_pos
      rw [List.length_append, List.length_cons]
      omega

/-- A string is read from any spelling of its characters. -/
theorem SpellsAll.readString {text cs : List Char} (h : SpellsAll text cs) (rest : List Char) :
    readString (text ++ '"' :: rest) = .ok (String.ofList cs, rest) := by
  refine h.readStringFrom [] ?_ rest
  have := h.length_le
  rw [List.length_append, List.length_cons]
  omega

/-! ### What is read is spelled -/

theorem exists_unit_of_readHex {text rest : List Char} {n : Nat}
    (h : readHex text = .ok (n, rest)) :
    ∃ digits, text = digits ++ rest ∧ WritesUnit digits n ∧ n < 0x10000 := by
  unfold readHex at h
  split at h
  · split at h
    · rename_i w x y z ha hb hc hd
      cases h
      refine ⟨_, rfl, .digits ha hb hc hd, ?_⟩
      have := hexValue?_lt ha
      have := hexValue?_lt hb
      have := hexValue?_lt hc
      have := hexValue?_lt hd
      omega
    · cases h
  · split at h <;> cases h

theorem toNat_ofNat {n : Nat} (h : n.isValidChar) : (Char.ofNat n).toNat = n := by
  rw [Char.ofNat, dif_pos h]
  rfl

theorem exists_spelling_of_readUnicodeEscape {text rest : List Char} {c : Char}
    (h : readUnicodeEscape text = .ok (c, rest)) :
    ∃ front, text = front ++ rest ∧ Spells ('\\' :: 'u' :: front) c := by
  unfold readUnicodeEscape at h
  split at h
  · cases h
  · rename_i n behind hfirst
    obtain ⟨first, rfl, hunit, hn⟩ := exists_unit_of_readHex hfirst
    split at h
    · cases h
    · rename_i hlow
      split at h
      · rename_i hhigh
        split at h
        · cases h
        · cases h
        · rename_i text
          split at h
          · cases h
          · rename_i m behind hsecond
            obtain ⟨second, rfl, hunit', -⟩ := exists_unit_of_readHex hsecond
            split at h
            · rename_i hlow'
              simp only [Except.ok.injEq, Prod.mk.injEq] at h
              obtain ⟨rfl, rfl⟩ := h
              -- Two halves of a pair make a code point outside the basic plane.
              have hvalid : (joinSurrogates n m).isValidChar := by
                simp only [isHighSurrogate, isLowSurrogate, Bool.and_eq_true,
                  decide_eq_true_eq] at hhigh hlow'
                right
                simp only [joinSurrogates]
                omega
              exact ⟨first ++ '\\' :: 'u' :: second, by simp,
                .pair hunit hunit' hhigh hlow' (toNat_ofNat hvalid).symm⟩
            · cases h
        · cases h
      · rename_i hhigh
        cases h
        have hvalid : n.isValidChar := by
          simp only [isHighSurrogate, isLowSurrogate, Bool.and_eq_true, decide_eq_true_eq]
            at hhigh hlow
          simp only [Nat.isValidChar]
          omega
        exact ⟨first, rfl, .unit (by rwa [toNat_ofNat hvalid])⟩

/-- An escape that is read is a spelling of its character. -/
theorem exists_spelling_of_readEscape {text rest : List Char} {c : Char}
    (h : readEscape text = .ok (c, rest)) :
    ∃ front, text = front ++ rest ∧ Spells ('\\' :: front) c := by
  have hshort : ∀ {letter d : Char} {behind : List Char}, text = letter :: behind →
      (letter, d) ∈ shortEscapes → Except.ok (d, behind) = Except.ok (ε := Fault) (c, rest) →
      ∃ front, text = front ++ rest ∧ Spells ('\\' :: front) c := by
    rintro letter d behind rfl hmem heq
    cases heq
    exact ⟨[letter], rfl, .short hmem⟩
  unfold readEscape at h
  split at h
  case h_10 =>
    obtain ⟨front, rfl, hspells⟩ := exists_spelling_of_readUnicodeEscape h
    exact ⟨'u' :: front, rfl, hspells⟩
  case h_1 | h_11 => cases h
  all_goals exact hshort rfl (by decide) h

theorem exists_spelling_of_readStringFrom {done bound text rest : List Char} {s : String}
    (h : readStringFrom done bound text = .ok (s, rest)) :
    ∃ front cs, text = front ++ '"' :: rest ∧ SpellsAll front cs
      ∧ s = String.ofList (done.reverse ++ cs) := by
  induction bound generalizing done text with
  | nil => cases h
  | cons step bound ih =>
      have hmore : ∀ {front behind : List Char} {c : Char}, text = front ++ behind →
          Spells front c → Json.readStringFrom (c :: done) bound behind = .ok (s, rest) →
          ∃ front cs, text = front ++ '"' :: rest ∧ SpellsAll front cs
            ∧ s = String.ofList (done.reverse ++ cs) := by
        rintro front behind c rfl hspells hread
        obtain ⟨more, cs, rfl, hmore, hs⟩ := ih hread
        exact ⟨front ++ more, c :: cs, (List.append_assoc _ _ _).symm, .cons hspells hmore,
          by simpa using hs⟩
      unfold readStringFrom at h
      split at h
      · cases h
      · cases h
        exact ⟨[], [], rfl, .nil, by rw [List.append_nil]⟩
      · split at h
        · cases h
        · rename_i hescape
          obtain ⟨front, rfl, hspells⟩ := exists_spelling_of_readEscape hescape
          exact hmore rfl hspells h
      · rename_i hquote hbackslash
        split at h
        · cases h
        · rename_i hcontrol
          exact hmore rfl (.itself hquote hbackslash (Nat.le_of_not_lt hcontrol)) h

/-- A string that is read is spelled in front of its closing quote. -/
theorem exists_spelling_of_readString {text rest : List Char} {s : String}
    (h : readString text = .ok (s, rest)) :
    ∃ front cs, text = front ++ '"' :: rest ∧ SpellsAll front cs ∧ s = String.ofList cs :=
  exists_spelling_of_readStringFrom h

/-! ### Writing -/

/-- A control character without a short escape is written by the number of its code unit. -/
theorem spells_stringChar (c : Char) : Spells (stringChar c) c := by
  -- The characters with a short escape come first, so the rest differ from all of them.
  by_cases hshort : c ∈ ['"', '\\', '\x08', '\x0c', '\n', '\r', '\t']
  · simp only [List.mem_cons, List.not_mem_nil, or_false] at hshort
    rcases hshort with rfl | rfl | rfl | rfl | rfl | rfl | rfl <;> exact .short (by decide)
  · simp only [List.mem_cons, List.not_mem_nil, or_false, not_or] at hshort
    obtain ⟨hquote, hbackslash, hb, hf, hn, hr, ht⟩ := hshort
    simp only [stringChar, hquote, hbackslash, hb, hf, hn, hr, ht, if_false]
    split
    · rename_i hcontrol
      have hdigits := WritesUnit.digits (hexValue?_digitChar 0 (by decide))
        (hexValue?_digitChar 0 (by decide)) (hexValue?_digitChar (c.toNat / 16) (by omega))
        (hexValue?_digitChar (c.toNat % 16) (by omega))
      have hnumber : ((0 * 16 + 0) * 16 + c.toNat / 16) * 16 + c.toNat % 16 = c.toNat := by omega
      rw [hnumber] at hdigits
      exact .unit hdigits
    · rename_i hcontrol
      exact .itself hquote hbackslash (Nat.le_of_not_lt hcontrol)

theorem spellsAll_flatMap (cs : List Char) : SpellsAll (cs.flatMap stringChar) cs := by
  induction cs with
  | nil => exact .nil
  | cons c cs ih => exact .cons (spells_stringChar c) ih

end NodeView.Json
