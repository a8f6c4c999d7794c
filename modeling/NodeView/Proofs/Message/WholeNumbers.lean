import Mathlib.Order.Interval.Set.Defs
import NodeView.Message.Normal
import NodeView.Proofs.Decimal.Whole
/-!
# NodeView.Proofs.Message.WholeNumbers

The integers that the normal form makes of floating-point numbers.

The tests compare with the ends of a range as numbers of the format, and the casts stop at the ends.
Both of it together does no harm: the largest integers are rounded up to the first powers of two
out of range, so whatever passes the strict test is cast to its value (`wholeNumber?_eq_some_iff`).
-/

namespace NodeView.Message

open Binary64

/-- The values that the normal form makes integers of in a field of this kind, if they are
whole. -/
def wholeRange : FieldKind → Set ℚ
  | .int64 => Set.Ico (-2 ^ 63) (2 ^ 63)
  | .uint64 | .uint32 => Set.Ico 0 (2 ^ 64)
  | _ => ∅

variable {kind : FieldKind} {x : Binary64} {n : Int}

theorem bounds_of_mem_wholeRange {v : ℚ} (h : v ∈ wholeRange kind) : -2 ^ 63 ≤ v ∧ v < 2 ^ 64 := by
  cases kind with
  | int64 => exact ⟨h.1, h.2.trans (by norm_num)⟩
  | uint64 | uint32 => exact ⟨le_trans (by norm_num) h.1, h.2⟩
  | _ => exact absurd h (Set.notMem_empty _)

theorem passes_signed :
    (ofInt (-2 ^ 63) ≤ x ∧ x < ofInt (2 ^ 63 - 1)) ↔ -2 ^ 63 ≤ x.value ∧ x.value < 2 ^ 63 := by
  rw [le_iff, lt_iff, value_ofInt_least, value_ofInt_largest]

theorem passes_unsigned :
    (zero false ≤ x ∧ x < ofInt (2 ^ 64 - 1)) ↔ 0 ≤ x.value ∧ x.value < 2 ^ 64 := by
  rw [le_iff, lt_iff, value_zero, value_ofInt_largest_unsigned]

theorem wholeNumber?_of_mem (hvalue : x.value = n) (hrange : x.value ∈ wholeRange kind) :
    wholeNumber? kind x = some n := by
  refine (if_pos (isWhole_iff.mpr ⟨n, hvalue⟩)).trans ?_
  cases kind with
  | int64 =>
      obtain ⟨hlow, hhigh⟩ : -2 ^ 63 ≤ (n : ℚ) ∧ (n : ℚ) < 2 ^ 63 := hvalue ▸ hrange
      refine (if_pos (passes_signed.mpr hrange)).trans (congrArg some ?_)
      exact toInt64_of_value hvalue (by exact_mod_cast hlow) (by exact_mod_cast hhigh)
  | uint64 | uint32 =>
      obtain ⟨hlow, hhigh⟩ : 0 ≤ (n : ℚ) ∧ (n : ℚ) < 2 ^ 64 := hvalue ▸ hrange
      refine (if_pos (passes_unsigned.mpr hrange)).trans (congrArg some ?_)
      exact toUInt64_of_value hvalue (by exact_mod_cast hlow) (by exact_mod_cast hhigh)
  | _ => exact absurd hrange (Set.notMem_empty _)

theorem isWhole_and_mem_of_wholeNumber? (h : wholeNumber? kind x = some n) :
    x.isWhole ∧ x.value ∈ wholeRange kind := by
  obtain ⟨hwhole, h⟩ := Option.ite_none_right_eq_some.mp h
  refine ⟨hwhole, ?_⟩
  cases kind with
  | int64 => exact passes_signed.mp (Option.ite_none_right_eq_some.mp h).1
  | uint64 | uint32 => exact passes_unsigned.mp (Option.ite_none_right_eq_some.mp h).1
  | _ => cases h

/-- **The integer is the value of the number, which is in range.** -/
theorem wholeNumber?_eq_some_iff :
    wholeNumber? kind x = some n ↔ x.value ∈ wholeRange kind ∧ x.value = n := by
  refine ⟨fun h => ?_, fun ⟨hrange, hvalue⟩ => wholeNumber?_of_mem hvalue hrange⟩
  obtain ⟨hwhole, hrange⟩ := isWhole_and_mem_of_wholeNumber? h
  obtain ⟨m, hm⟩ := isWhole_iff.mp hwhole
  have hsame : some m = some n := (wholeNumber?_of_mem hm hrange).symm.trans h
  cases hsame
  exact ⟨hrange, hm⟩

/-- A zero with a sign is zero, and the largest signed integer is rounded out of range. -/
example : wholeNumber? .uint32 (zero true) = some 0
    ∧ wholeNumber? .int64 (ofInt (2 ^ 63 - 1)) = none := by
  decide +kernel

end NodeView.Message
