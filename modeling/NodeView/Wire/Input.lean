/-!
# NodeView.Wire.Input

What is left to read of a binary message.

The bytes come with their number, so that a length found in the input can be compared with
what is there at once and the position inside a nested message is known at every field.
-/

namespace NodeView.Wire

/-- The bytes not yet read, with their number. -/
structure Input where
  /-- The bytes, the next one first. -/
  bytes : List UInt8
  /-- How many there are. -/
  size : Nat
  size_eq : bytes.length = size

namespace Input

/-- All of a byte string. -/
def ofList (bytes : List UInt8) : Input := ⟨bytes, bytes.length, rfl⟩

@[simp] theorem bytes_ofList (bytes : List UInt8) : (ofList bytes).bytes = bytes := rfl
@[simp] theorem size_ofList (bytes : List UInt8) : (ofList bytes).size = bytes.length := rfl

/-- Two inputs with the same bytes are the same. -/
@[ext] theorem ext {a b : Input} (h : a.bytes = b.bytes) : a = b := by
  obtain ⟨as, n, hn⟩ := a
  obtain ⟨bs, m, hm⟩ := b
  cases h
  cases hn
  cases hm
  rfl

@[simp] theorem ofList_bytes (input : Input) : ofList input.bytes = input := ext rfl

/-- The next byte and what follows it. -/
def next? : Input → Option (UInt8 × Input)
  | ⟨[], _, _⟩ => none
  | ⟨byte :: rest, size, size_eq⟩ =>
    some (byte, ⟨rest, size - 1, by rw [List.length_cons] at size_eq; omega⟩)

@[simp] theorem next?_nil : (ofList []).next? = none := rfl
@[simp] theorem next?_cons (byte : UInt8) (rest : List UInt8) :
    (ofList (byte :: rest)).next? = some (byte, ofList rest) := rfl

/-- What follows the next `n` bytes. -/
def drop (input : Input) (n : Nat) : Input :=
  ⟨input.bytes.drop n, input.size - n, by rw [List.length_drop, input.size_eq]⟩

@[simp] theorem drop_ofList (bytes : List UInt8) (n : Nat) :
    (ofList bytes).drop n = ofList (bytes.drop n) := ext rfl
@[simp] theorem size_drop (input : Input) (n : Nat) : (input.drop n).size = input.size - n := rfl

/-- The next `n` bytes, or all of them if there are fewer. -/
def take (input : Input) (n : Nat) : List UInt8 := input.bytes.take n

@[simp] theorem take_ofList (bytes : List UInt8) (n : Nat) :
    (ofList bytes).take n = bytes.take n := rfl

theorem size_of_next? {input rest : Input} {byte : UInt8} (h : input.next? = some (byte, rest)) :
    rest.size + 1 = input.size := by
  obtain ⟨bytes, size, size_eq⟩ := input
  cases bytes with
  | nil => simp [next?] at h
  | cons b bs =>
    simp only [next?, Option.some.injEq, Prod.mk.injEq] at h
    obtain ⟨_, rfl⟩ := h
    simp only [List.length_cons] at size_eq
    show size - 1 + 1 = size
    omega

end Input

end NodeView.Wire
