import Mathlib.Data.String.Basic
import NodeView.Wire.Field
/-!
# NodeView.Proofs.Text.ByteOrder

The order of texts is the order of their bytes.

Texts are compared by code points. In UTF-8 a larger code point starts with a larger byte or goes on
with one where the two first differ (`utf8EncodeChar_append_lt`), so the first code point in which
two texts differ also decides between their bytes (`lt_iff_textBytes`). Code units of 16 bits would
be in another order: a character beyond the first plane is written with two of them that are smaller
than many a single one.
-/

namespace NodeView.Wire

open String (utf8EncodeChar)

theorem textBytes_eq (s : String) : textBytes s = s.toList.flatMap utf8EncodeChar := by
  conv_lhs => rw [textBytes, ← s.ofList_toList]
  exact List.toList_data_toByteArray

theorem ofNat_cons_lt_iff {a b : Nat} (ha : a < 256) (hb : b < 256) {x y : List UInt8} :
    UInt8.ofNat a :: x < UInt8.ofNat b :: y ↔ a < b ∨ a = b ∧ x < y := by
  rw [List.cons_lt_cons_iff, UInt8.lt_iff_toNat_lt, ← UInt8.toNat_inj,
    UInt8.toNat_ofNat_of_lt' ha, UInt8.toNat_ofNat_of_lt' hb]

/-- Between different characters the bytes decide whatever follows. -/
theorem utf8EncodeChar_append_lt {c d : Char} (h : c < d) (x y : List UInt8) :
    utf8EncodeChar c ++ x < utf8EncodeChar d ++ y := by
  have hlt : c.val.toNat < d.val.toNat := h
  have hd : d.val.toNat ≤ 0x10ffff := by
    have hvalid : d.val.isValidChar := d.valid
    simp only [UInt32.isValidChar, Nat.isValidChar] at hvalid
    omega
  unfold utf8EncodeChar
  dsimp only
  generalize c.val.toNat = v at hlt
  generalize d.val.toNat = w at hlt hd
  -- Every byte holds six bits more than the one behind it.
  have hdigits (n : Nat) : n / 4096 = n / 64 / 64 ∧ n / 262144 = n / 64 / 64 / 64 := by
    constructor <;> simp only [Nat.div_div_eq_div_mul]
  rw [(hdigits v).1, (hdigits v).2, (hdigits w).1, (hdigits w).2]
  clear hdigits
  -- One case for every two numbers of bytes.
  repeat' split
  all_goals simp (disch := omega) only [List.cons_append, List.nil_append, ofNat_cons_lt_iff]
  all_goals omega

theorem flatMap_utf8EncodeChar_lt {cs ds : List Char} (h : cs < ds) :
    cs.flatMap utf8EncodeChar < ds.flatMap utf8EncodeChar := by
  induction h with
  | @nil d ds =>
      obtain ⟨byte, bytes, hbytes⟩ :=
        List.exists_cons_of_ne_nil (@String.utf8EncodeChar_ne_nil d)
      rw [List.flatMap_nil, List.flatMap_cons, hbytes]
      exact List.nil_lt_cons _ _
  | cons _ ih =>
      rw [List.flatMap_cons, List.flatMap_cons]
      exact List.append_left_lt ih
  | rel h =>
      rw [List.flatMap_cons, List.flatMap_cons]
      exact utf8EncodeChar_append_lt h _ _

/-- **Texts are in the order of their bytes.** -/
theorem lt_iff_textBytes {a b : String} : a < b ↔ textBytes a < textBytes b := by
  have hmono {a b : String} (h : a < b) : textBytes a < textBytes b := by
    rw [textBytes_eq, textBytes_eq]
    exact flatMap_utf8EncodeChar_lt (String.lt_iff_toList_lt.mp h)
  refine ⟨hmono, fun h => ?_⟩
  rcases lt_trichotomy a b with hlt | rfl | hgt
  · exact hlt
  · exact absurd h (List.lt_irrefl _)
  · exact absurd (hmono hgt) (List.lt_asymm h)

theorem le_iff_textBytes {a b : String} : a ≤ b ↔ textBytes a ≤ textBytes b := by
  rw [← String.not_lt, lt_iff_textBytes, List.not_lt]

end NodeView.Wire
