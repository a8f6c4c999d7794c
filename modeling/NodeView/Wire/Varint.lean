import NodeView.Wire.Input
/-!
# NodeView.Wire.Varint

Variable-length integers: seven bits a byte, the low ones first, and the high bit of a byte
says that another one follows.

A number below 2^64 takes at most ten bytes, and the tenth holds a single bit. Reading accepts
no longer form and no larger number; it does accept forms with needless zero groups.
-/

namespace NodeView.Wire

/-- Writes a number in the fewest bytes. -/
def writeVarint (n : Nat) : List UInt8 :=
  if n < 128 then [n.toUInt8] else (n % 128 + 128).toUInt8 :: writeVarint (n / 128)
termination_by n

/-- The number of bytes that `writeVarint` takes. -/
def varintSize (n : Nat) : Nat :=
  if n < 128 then 1 else 1 + varintSize (n / 128)
termination_by n

@[simp] theorem length_writeVarint (n : Nat) : (writeVarint n).length = varintSize n := by
  induction n using Nat.strongRecOn with
  | _ n ih =>
    rw [writeVarint, varintSize]
    split
    · rfl
    · rw [List.length_cons, ih (n / 128) (by omega), Nat.add_comm]

theorem varintSize_pos (n : Nat) : 1 ≤ varintSize n := by
  rw [varintSize]
  split <;> omega

/-- Reads a number of at most `groups` bytes, the last of which may hold a single bit. -/
def readGroups : (groups : Nat) → Input → Option (Nat × Input)
  | 0, _ => none
  | groups + 1, input =>
    match input.next? with
    | none => none
    | some (byte, rest) =>
      if byte.toNat < 128 then
        if groups = 0 ∧ 2 ≤ byte.toNat then none else some (byte.toNat, rest)
      else
        match readGroups groups rest with
        | none => none
        | some (high, rest) => some (byte.toNat - 128 + 128 * high, rest)

/-- Reads a variable-length integer. -/
def readVarint (input : Input) : Option (Nat × Input) := readGroups 10 input

/-- A group of the number is at least one byte, so reading moves on. -/
theorem size_of_readGroups {groups n : Nat} {input rest : Input}
    (h : readGroups groups input = some (n, rest)) : rest.size < input.size := by
  induction groups generalizing n input rest with
  | zero => simp [readGroups] at h
  | succ groups ih =>
    rw [readGroups] at h
    split at h
    · simp at h
    · rename_i byte after hnext
      have hstep := Input.size_of_next? hnext
      split at h
      · split at h
        · simp at h
        · simp only [Option.some.injEq, Prod.mk.injEq] at h
          obtain ⟨_, rfl⟩ := h
          omega
      · split at h
        · simp at h
        · rename_i high after' hrest
          simp only [Option.some.injEq, Prod.mk.injEq] at h
          obtain ⟨_, rfl⟩ := h
          have := ih hrest
          omega

theorem size_of_readVarint {n : Nat} {input rest : Input}
    (h : readVarint input = some (n, rest)) : rest.size < input.size :=
  size_of_readGroups h

end NodeView.Wire
