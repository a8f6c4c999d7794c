import NodeView.Hex
import NodeView.Text.Blank
/-!
# NodeView.Proofs.Hex

Hexadecimal text that was written.

It holds lower-case digits and nothing else (`mem_lowerDigits_of_mem_encode`). So there are no
blanks at its ends (`trim_encode`), every character is one byte, and reading it gives the bytes
back (`decode_encode`).
-/

namespace NodeView.Hex

/-- The digits that are written. -/
def lowerDigits : List Char :=
  ['0', '1', '2', '3', '4', '5', '6', '7', '8', '9', 'a', 'b', 'c', 'd', 'e', 'f']

/-- The two digits of a byte. -/
def pair (byte : UInt8) : List Char := [digit (byte.toNat / 16), digit (byte.toNat % 16)]

theorem encode_eq (bytes : List UInt8) : encode bytes = String.ofList (bytes.flatMap pair) := rfl

theorem high_lt (byte : UInt8) : byte.toNat / 16 < 16 := by
  have := byte.toNat_lt
  omega

theorem low_lt (byte : UInt8) : byte.toNat % 16 < 16 := Nat.mod_lt _ (by decide)

/-! ### Digits -/

theorem digit_mem_lowerDigits {n : Nat} (h : n < 16) : digit n ∈ lowerDigits := by
  have all : ∀ m : Fin 16, digit m.val ∈ lowerDigits := by decide
  exact all ⟨n, h⟩

theorem not_blank_of_mem_lowerDigits {c : Char} (h : c ∈ lowerDigits) :
    Text.isBlank c = false := by
  have all : lowerDigits.all (fun c => !Text.isBlank c) = true := by decide
  simpa using List.all_eq_true.mp all c h

theorem dash_not_mem_lowerDigits : '-' ∉ lowerDigits := by simp [lowerDigits]

theorem mem_lowerDigits_of_mem_pair {byte : UInt8} {c : Char} (h : c ∈ pair byte) :
    c ∈ lowerDigits := by
  simp only [pair, List.mem_cons, List.not_mem_nil, or_false] at h
  rcases h with rfl | rfl
  · exact digit_mem_lowerDigits (high_lt byte)
  · exact digit_mem_lowerDigits (low_lt byte)

/-- Bytes are written in lower-case digits. -/
theorem mem_lowerDigits_of_mem_encode {bytes : List UInt8} :
    ∀ c ∈ (encode bytes).toList, c ∈ lowerDigits := by
  intro c hc
  rw [encode_eq, String.toList_ofList] at hc
  obtain ⟨byte, -, hmem⟩ := List.mem_flatMap.mp hc
  exact mem_lowerDigits_of_mem_pair hmem

/-! ### Blanks -/

theorem trimChars_eq_self {text : List Char} (h : ∀ c ∈ text, Text.isBlank c = false) :
    Text.trimChars text = text := by
  have hkeep : ∀ cs : List Char, (∀ c ∈ cs, Text.isBlank c = false) →
      cs.dropWhile Text.isBlank = cs := by
    intro cs hcs
    cases cs with
    | nil => rfl
    | cons c cs => exact List.dropWhile_cons_of_neg (by simp [hcs c List.mem_cons_self])
  have hreverse : ∀ c ∈ text.reverse, Text.isBlank c = false := by simpa using h
  rw [Text.trimChars, hkeep text h, hkeep _ hreverse, List.reverse_reverse]

theorem trim_encode (bytes : List UInt8) : Text.trim (encode bytes) = encode bytes := by
  have hplain : ∀ c ∈ (encode bytes).toList, Text.isBlank c = false :=
    fun c hc => not_blank_of_mem_lowerDigits (mem_lowerDigits_of_mem_encode c hc)
  rw [Text.trim, trimChars_eq_self hplain, String.ofList_toList]

/-! ### Reading back -/

/-- A digit is one byte, its ASCII code. -/
theorem utf8EncodeChar_digit {n : Nat} (h : n < 16) :
    String.utf8EncodeChar (digit n) = [(digit n).toNat.toUInt8] := by
  have all : ∀ m : Fin 16,
      String.utf8EncodeChar (digit m.val) = [(digit m.val).toNat.toUInt8] := by decide
  exact all ⟨n, h⟩

theorem utf8_ofList (text : List Char) :
    (String.ofList text).toUTF8.data.toList = text.flatMap String.utf8EncodeChar := by
  simp [String.toUTF8, List.utf8Encode]

theorem utf8_pair (byte : UInt8) :
    (pair byte).flatMap String.utf8EncodeChar
      = [(digit (byte.toNat / 16)).toNat.toUInt8, (digit (byte.toNat % 16)).toNat.toUInt8] := by
  simp only [pair, List.flatMap_cons, List.flatMap_nil, utf8EncodeChar_digit (high_lt byte),
    utf8EncodeChar_digit (low_lt byte), List.append_nil, List.singleton_append]

/-- The digits of a byte write the byte. -/
theorem decodePairs_pair (byte : UInt8) (position : Nat) (done rest : List UInt8) :
    decodePairs position done ((pair byte).flatMap String.utf8EncodeChar ++ rest)
      = decodePairs (position + 2) (byte :: done) rest := by
  have hbyte : 16 * (byte.toNat / 16) + byte.toNat % 16 = byte.toNat := Nat.div_add_mod _ _
  simp only [utf8_pair, List.cons_append, List.nil_append, decodePairs,
    digitValue?_digit (high_lt byte), digitValue?_digit (low_lt byte), hbyte]
  congr 2
  exact UInt8.ofNat_toNat

theorem decodePairs_pairs (bytes : List UInt8) (position : Nat) (done : List UInt8) :
    decodePairs position done ((bytes.flatMap pair).flatMap String.utf8EncodeChar)
      = .ok (done.reverse ++ bytes) := by
  induction bytes generalizing position done with
  | nil =>
      rw [List.append_nil]
      rfl
  | cons byte bytes ih =>
      rw [List.flatMap_cons, List.flatMap_append, decodePairs_pair, ih, List.reverse_cons,
        List.append_assoc, List.singleton_append]

theorem length_pairs (bytes : List UInt8) :
    ((bytes.flatMap pair).flatMap String.utf8EncodeChar).length = 2 * bytes.length := by
  induction bytes with
  | nil => rfl
  | cons byte bytes ih =>
      rw [List.flatMap_cons, List.flatMap_append, List.length_append, ih, utf8_pair,
        List.length_cons, List.length_cons, List.length_cons, List.length_nil]
      omega

/-- **What is written is read back.** -/
theorem decode_encode (bytes : List UInt8) : decode (encode bytes) = .ok bytes := by
  have heven : ¬ (2 * bytes.length) % 2 = 1 := by omega
  rw [decode, encode_eq, utf8_ofList, decodeBytes, length_pairs, if_neg heven,
    decodePairs_pairs, List.reverse_nil, List.nil_append]

end NodeView.Hex
