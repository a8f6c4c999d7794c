import NodeView.Message.Decode
import NodeView.Proofs.Wire.Run
/-!
# NodeView.Proofs.Wire.Slices

Reading nested messages from slices.

The reader of the binary form does not cut a nested message out: it reads on in the whole input
and looks at the position when a field is over. The reader here first cuts out the declared
number of bytes, for every token, record and map entry, and lets no field see anything else. It
is told apart by the faults it reports, and by nothing else: both accept the same bytes and make
the same message of them (`Message.decode_eq_ok_iff_decodeSliced`).
-/

namespace NodeView.Wire

variable {α : Type} {item : Read α}

/-! ### The slicing reader -/

/-- Reads a length, cuts out so many bytes, and reads items until the slice is used up. -/
def readSlice (item : Read α) : Read (List α) := fun input =>
  match readNumber input with
  | .error fault => .error fault
  | .ok (length, body) =>
    if body.size < length then fail .underflow
    else
      match readUntil item 0 [] (.ofList (body.take length)) with
      | .error fault => .error fault
      | .ok (items, _) => .ok (items, body.drop length)

/-- Reads a map entry from a slice. -/
def sliceEntry : (budget : Nat) → Read (String × Bool)
  | 0 => fun _ => fail .tooDeep
  | budget + 1 => Read.map entryOfFields (readSlice (readEntryField budget))

/-- Reads the value of a declared field, a map entry from a slice; `nested` reads the fields of
a message behind its length. -/
def sliceValue (budget : Nat) (nested : MessageType → Read (List Field)) (spec : FieldSpec)
    (wire : WireType) : Read Field :=
  match spec.kind with
  | .flags => Read.map (fun (key, flag) => .entry spec.number key flag) (sliceEntry budget)
  | _ => readValue budget nested spec wire

/-- What follows the key of a field of a message, a map entry from a slice. -/
def sliceFieldBehind (budget : Nat) (nested : MessageType → Read (List Field))
    (type : MessageType) (key : Key) : Read Field := fun rest =>
  match type.field? key.number with
  | none => (skip budget key.wire key.number rest).map fun rest => (.unknown key.number, rest)
  | some spec =>
    (sliceValue budget nested spec key.wire rest).mapError fun fault => fault.within type spec.name

/-- Reads a field of a message as `readFieldWith` does, a map entry from a slice. -/
def sliceFieldWith (budget : Nat) (nested : MessageType → Read (List Field))
    (type : MessageType) : Read Field :=
  Read.andThen readKey (sliceFieldBehind budget nested type)

/-- Reads a field of a message, every nested message and map entry from a slice. -/
def sliceField : (budget : Nat) → MessageType → Read Field
  | 0, type => sliceFieldWith 0 (fun _ _ => fail .tooDeep) type
  | budget + 1, type =>
    sliceFieldWith (budget + 1) (fun inner => readSlice (sliceField budget inner)) type

/-- The fields of a binary message, with every nested message and map entry from a slice. -/
def sliceFields (type : MessageType) (bytes : List UInt8) : Except Fault (List Field) :=
  (readUntil (sliceField nestingBudget type) 0 [] (.ofList bytes)).map (·.1)

end NodeView.Wire

namespace NodeView.Message

/-- Reads the binary form of a message of at most `limit` bytes, with every nested message and
map entry from a slice. -/
def decodeSliced (type : MessageType) (bytes : List UInt8) (limit : Nat := defaultLimit) :
    Except DecodeError Message :=
  if limit < bytes.length then .error (.tooLarge bytes.length limit)
  else
    match Wire.sliceFields type bytes with
    | .error fault => .error (.binary fault)
    | .ok fields => .ok (ofFields type fields)

end NodeView.Message

namespace NodeView.Wire

variable {α : Type} {item other : Read α}

/-! ### Slices and positions -/

/-- From a slice, too, a success is a run that fills the declared length. -/
theorem readSlice_eq_ok_iff (hitem : Local item) {values : List α} {input rest : Input} :
    readSlice item input = .ok (values, rest) ↔
      ∃ length body, input.bytes = length ++ body ++ rest.bytes
        ∧ Takes readNumber length body.length ∧ Run item body values := by
  constructor
  · intro h
    unfold readSlice at h
    split at h
    · cases h
    · rename_i n content hlength
      obtain ⟨length, hlength, takes⟩ := readNumber_local hlength
      split at h
      · cases h
      · rename_i hfits
        split at h
        · cases h
        · rename_i items after hloop
          cases h
          obtain ⟨body, values, hbody, rfl, run, hstop⟩ := exists_run_of_readUntil hitem hloop
          -- The loop over the slice ends where the slice does, so the run fills it.
          have hafter : after.bytes = [] := by
            rw [← after.size_eq] at hstop
            exact List.length_eq_zero_iff.mp (Nat.le_zero.mp hstop)
          have hslice : content.bytes.take n = body := by
            rw [hafter, List.append_nil] at hbody
            exact hbody
          have hn : n = body.length := by
            have hsize := content.size_eq
            rw [← hslice, List.length_take]
            omega
          refine ⟨length, body, ?_, hn ▸ takes, run⟩
          rw [hlength, List.append_assoc, ← hslice]
          exact congrArg (length ++ ·) (List.take_append_drop n content.bytes).symm
  · rintro ⟨length, body, hbytes, takes, run⟩
    have hinput : input = .ofList (length ++ (body ++ rest.bytes)) :=
      Input.ext (by rw [hbytes, List.append_assoc]; rfl)
    have hloop := run.readUntil_eq [] []
    rw [List.append_nil, List.length_nil] at hloop
    rw [hinput, readSlice, takes]
    dsimp only
    rw [if_neg (by simp)]
    simp [hloop]

/-- What the late check of the end lets pass is what fits the slice. -/
theorem readDelimited_agree_readSlice (hitem : Local item) (h : Agree item other) :
    Agree (readDelimited item) (readSlice other) := by
  intro input values rest
  rw [readDelimited_eq_ok_iff hitem, readSlice_eq_ok_iff (h.isLocal hitem)]
  constructor
  · rintro ⟨length, body, hbytes, takes, run⟩
    exact ⟨length, body, hbytes, takes, h.run run⟩
  · rintro ⟨length, body, hbytes, takes, run⟩
    exact ⟨length, body, hbytes, takes, h.symm.run run⟩

theorem readEntry_agree_sliceEntry (budget : Nat) :
    Agree (readEntry budget) (sliceEntry budget) := by
  cases budget with
  | zero => exact .refl _
  | succ budget =>
      have hfield := readEntryField_local budget
      exact (readDelimited_agree_readSlice hfield (.refl _)).map entryOfFields

/-! ### Fields -/

section

variable {budget : Nat} {nested nested' : MessageType → Read (List Field)}

theorem expect_agree {read other : Read α} (found expected : WireType) (h : Agree read other) :
    Agree
      (fun input => match expect found expected with
        | .error fault => .error fault
        | .ok () => read input)
      (fun input => match expect found expected with
        | .error fault => .error fault
        | .ok () => other input) := by
  intro input value rest
  cases expect found expected with
  | error fault => exact Iff.rfl
  | ok done => exact h input value rest

theorem readValue_agree_sliceValue (hnested : ∀ type, Agree (nested type) (nested' type))
    (spec : FieldSpec) (wire : WireType) :
    Agree (readValue budget nested spec wire) (sliceValue budget nested' spec wire) := by
  cases hkind : spec.kind with
  | flags =>
      rw [readValue_of_flags hkind, sliceValue, hkind]
      exact (readEntry_agree_sliceEntry budget).map _
  | message type | «repeated» type =>
      simp only [sliceValue, hkind]
      unfold readValue
      simp only [hkind]
      exact expect_agree wire .delimited ((hnested type).map (Field.message spec.number))
  | _ =>
      simp only [sliceValue, hkind]
      unfold readValue
      simp only [hkind]
      exact .refl _

theorem readFieldWith_agree_sliceFieldWith
    (hnested : ∀ type, Agree (nested type) (nested' type)) (type : MessageType) :
    Agree (readFieldWith budget nested type) (sliceFieldWith budget nested' type) := by
  rw [readFieldWith_eq_andThen]
  refine Agree.andThen readKey fun key => ?_
  unfold fieldBehind sliceFieldBehind
  cases type.field? key.number with
  | none => exact .refl _
  | some spec => exact (readValue_agree_sliceValue hnested spec key.wire).mapError _

end

/-- **Slicing changes no success**: a field is read from slices exactly as it is read from the
whole input. -/
theorem readField_agree_sliceField (budget : Nat) (type : MessageType) :
    Agree (readField budget type) (sliceField budget type) := by
  induction budget generalizing type with
  | zero => exact readFieldWith_agree_sliceFieldWith (fun _ => .refl _) type
  | succ budget ih =>
      exact readFieldWith_agree_sliceFieldWith
        (fun inner => readDelimited_agree_readSlice (readField_local budget inner) (ih inner)) type

theorem readFields_eq_ok_iff_sliceFields {type : MessageType} {bytes : List UInt8}
    {fields : List Field} :
    readFields type bytes = .ok fields ↔ sliceFields type bytes = .ok fields := by
  have hagree := readField_agree_sliceField nestingBudget type
  have hslices := hagree.isLocal (readField_local nestingBudget type)
  rw [readFields_eq_ok_iff]
  constructor
  · intro run
    exact (readUntil_zero_eq_ok_iff hslices).mpr (hagree.run run)
  · intro h
    exact hagree.symm.run ((readUntil_zero_eq_ok_iff hslices).mp h)

end NodeView.Wire

namespace NodeView.Message

/-- **No field reads past the end of its message.** A byte string is the binary form of a message
exactly if it is one for a reader that sees of every nested message and map entry no more than
the bytes it declares, and both make the same message of it. -/
theorem decode_eq_ok_iff_decodeSliced (type : MessageType) (bytes : List UInt8) (limit : Nat)
    (message : Message) :
    decode type bytes limit = .ok message ↔ decodeSliced type bytes limit = .ok message := by
  unfold decode decodeSliced
  split
  · exact Iff.rfl
  · have hfields (fields : List Wire.Field) : Wire.readFields type bytes = .ok fields
        ↔ Wire.sliceFields type bytes = .ok fields := Wire.readFields_eq_ok_iff_sliceFields
    cases hread : Wire.readFields type bytes with
    | error fault =>
        cases hslice : Wire.sliceFields type bytes with
        | error fault' => simp
        | ok fields => exact absurd ((hfields fields).mpr hslice) (by simp [hread])
    | ok fields =>
        rw [(hfields fields).mp hread]

end NodeView.Message
