import NodeView.Proofs.Message.Fractions
/-!
# NodeView.Proofs.Message.Floats

Floating-point numbers in integer fields.

A number becomes the integer that it is, where that is in the range of 64 bits, and stays what it is
otherwise. A field of 32 bits is put to the range of 64 bits first, so an integer between the two
ranges comes about, and is refused when the field is read (`integerOfJson_normalScalar`).
-/

namespace NodeView.Message

variable {kind : FieldKind} {x : Binary64} {n : Int}

theorem normalScalar_eq_integer_iff :
    normalScalar kind (.float x) = .integer n ↔ x.value ∈ wholeRange kind ∧ x.value = n := by
  rw [← wholeNumber?_eq_some_iff]
  cases hwhole : wholeNumber? kind x with
  | none => simp [normalScalar, hwhole]
  | some m => simp [normalScalar, hwhole]

/-- What is read is the value, which has to be in both ranges. -/
theorem integerOfJson_normalScalar {low high : Int} :
    integerOfJson low high (normalScalar kind (.float x)) = .ok n
      ↔ (x.value ∈ wholeRange kind ∧ x.value = n) ∧ low ≤ n ∧ n ≤ high := by
  rw [← wholeNumber?_eq_some_iff]
  cases hwhole : wholeNumber? kind x with
  | none => simp [integerOfJson_float hwhole]
  | some m =>
      simp only [normalScalar, hwhole, integerOfJson, Option.some.injEq]
      by_cases hrange : low ≤ m ∧ m ≤ high
      · rw [if_pos hrange, Except.ok.injEq]
        exact (and_iff_left_of_imp fun h => h ▸ hrange).symm
      · rw [if_neg hrange]
        exact iff_of_false (fun h => by cases h) fun h => hrange (h.1 ▸ h.2)

/-- A number is read as an integer of 32 bits if it is one. -/
theorem map_integerOfJson_uint32 {α : Type} (f : UInt32 → α) {a : α} :
    ((integerOfJson 0 (2 ^ 32 - 1) (normalScalar .uint32 (.float x))).map fun n =>
        f (UInt32.ofNat n.toNat)) = .ok a
      ↔ ∃ n : UInt32, x.value = n.toNat ∧ a = f n := by
  constructor
  · intro h
    obtain ⟨n, hn, rfl⟩ := exists_of_map_eq_ok h
    obtain ⟨⟨-, hvalue⟩, hlow, hhigh⟩ := integerOfJson_normalScalar.mp hn
    have hnat : (UInt32.ofNat n.toNat).toNat = n.toNat :=
      UInt32.toNat_ofNat_of_lt (show n.toNat < 2 ^ 32 by omega)
    refine ⟨UInt32.ofNat n.toNat, ?_, rfl⟩
    rw [hvalue, hnat]
    exact_mod_cast (Int.toNat_of_nonneg hlow).symm
  · rintro ⟨n, hvalue, rfl⟩
    have hlt := n.toNat_lt
    have hmem : x.value ∈ wholeRange .uint32 := by
      rw [hvalue]
      exact ⟨Nat.cast_nonneg _, by exact_mod_cast hlt.trans (by decide)⟩
    have hread : integerOfJson 0 (2 ^ 32 - 1) (normalScalar .uint32 (.float x))
        = .ok (n.toNat : Int) :=
      integerOfJson_normalScalar.mpr ⟨⟨hmem, hvalue⟩, by omega, by omega⟩
    rw [hread]
    exact congrArg (fun m => Except.ok (f m)) UInt32.ofNat_toNat

/-- **An integer field takes a floating-point number for what it is.** The normal form makes an
integer of it if and only if it is a whole number in the range of 64 bits, signed or not as the
field is, and the integer is its value; any other value it leaves alone. A field of 32 bits is then
read if and only if the number is an integer of 32 bits, which it holds. -/
theorem normalScalar_exact :
    (∀ kind x n, normalScalar kind (.float x) = .integer n
      ↔ x.value ∈ wholeRange kind ∧ x.value = n) ∧
    (∀ kind value, normalScalar kind value = value
      ∨ ∃ x n, value = .float x ∧ normalScalar kind value = .integer n) ∧
    (∀ number name jsonName x fields,
      fieldsOfValue ⟨number, name, jsonName, .uint32⟩ (normalValue .uint32 (.float x)) = .ok fields
        ↔ ∃ n : UInt32, x.value = n.toNat ∧ fields = [.uint32 number n]) ∧
    ∀ policy x message, ofJson .token policy (.object [("decimals", .float x)]) = .ok message
      ↔ ∃ n : UInt32, x.value = n.toNat ∧ message = .token { decimals := n } := by
  refine ⟨fun kind x n => normalScalar_eq_integer_iff, normalScalar_eq_or, ?_, ?_⟩
  · intro number name jsonName x fields
    have hplain := (Plain.float x).normalScalar .uint32
    exact (Eq.congr_left (hplain.fieldsOfValue _)).trans
      (map_integerOfJson_uint32 fun n => [Wire.Field.uint32 number n])
  · intro policy x message
    have hread : ofJson .token policy (.object [("decimals", .float x)])
        = ((integerOfJson 0 (2 ^ 32 - 1) (normalScalar .uint32 (.float x))).map fun n =>
            token { decimals := UInt32.ofNat n.toNat }).mapError fun fault => .json (.data fault) :=
      ofJson_member .decimals policy (.float x)
    rw [hread]
    refine Iff.trans ?_ (map_integerOfJson_uint32 fun n => token { decimals := n })
    cases integerOfJson 0 (2 ^ 32 - 1) (normalScalar .uint32 (.float x)) with
    | error fault => exact iff_of_false (fun h => by cases h) fun h => by cases h
    | ok n => exact ⟨fun h => by cases h; rfl, fun h => by cases h; rfl⟩

end NodeView.Message
