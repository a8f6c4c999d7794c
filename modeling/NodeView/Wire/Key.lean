import NodeView.Wire.Fault
import NodeView.Wire.Varint
/-!
# NodeView.Wire.Key

The key in front of every field: a variable-length integer that holds the field's number and,
in its low three bits, how the payload is delimited.

The wire type of a key is looked at before its number.
-/

namespace NodeView.Wire

/-- The key of a field. -/
structure Key where
  /-- The number of the field. -/
  number : Nat
  /-- How the payload is delimited. -/
  wire : WireType
  deriving DecidableEq, Repr

/-- The number that stands for a key. -/
def Key.toNat (key : Key) : Nat := 8 * key.number + key.wire.toNat

/-- Writes a key. -/
def Key.write (key : Key) : List UInt8 := writeVarint key.toNat

/-- Reads a variable-length integer, or says that there is none. -/
def readNumber (input : Input) : Except Fault (Nat × Input) :=
  match readVarint input with
  | none => fail .invalidVarint
  | some result => .ok result

/-- Reads a key. -/
def readKey (input : Input) : Except Fault (Key × Input) :=
  match readNumber input with
  | .error fault => .error fault
  | .ok (n, rest) =>
    if 2 ^ 32 ≤ n then fail (.invalidKey n)
    else
      match WireType.ofNat? (n % 8) with
      | none => fail (.invalidWireType (n % 8))
      | some wire => if n / 8 = 0 then fail .zeroNumber else .ok (⟨n / 8, wire⟩, rest)

theorem size_of_readNumber {n : Nat} {input rest : Input}
    (h : readNumber input = .ok (n, rest)) : rest.size < input.size := by
  unfold readNumber at h
  split at h
  · simp [fail] at h
  · rename_i heq
    cases h
    exact size_of_readVarint heq

theorem size_of_readKey {key : Key} {input rest : Input}
    (h : readKey input = .ok (key, rest)) : rest.size < input.size := by
  unfold readKey at h
  split at h
  · simp at h
  · rename_i heq
    have := size_of_readNumber heq
    split at h
    · simp [fail] at h
    · split at h
      · simp [fail] at h
      · split at h
        · simp [fail] at h
        · simp only [Except.ok.injEq, Prod.mk.injEq] at h
          obtain ⟨_, rfl⟩ := h
          exact this

end NodeView.Wire
