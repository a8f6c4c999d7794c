import NodeView.Proofs.Wire.Written
/-!
# NodeView.Proofs.Wire.Skipping

Fields under numbers that are not declared, and how deep they may nest.

`Payload` says without a reader what the payload of such a field may be: a number in any spelling,
four or eight bytes, a length with so many bytes, or a group of further fields that ends under the
number it began with. A payload has a depth, one more for every group around it.

The budget for nesting decides, and nothing else: a payload is passed over exactly where the
budget is no less than its depth (`Payload.takes_skip`, `Payload.skip_tooDeep`). In the second case
the refusal comes from the innermost field, after everything in front of it was passed over.
-/

namespace NodeView.Wire

/-! ### Spellings of numbers and keys -/

/-- Groups of seven bits, the low ones first, and the number that they make. -/
inductive Groups : List UInt8 → Nat → Prop
  | last {byte : UInt8} (low : byte.toNat < 128) : Groups [byte] byte.toNat
  | more {byte : UInt8} {bytes : List UInt8} {n : Nat} (high : 128 ≤ byte.toNat)
      (others : Groups bytes n) : Groups (byte :: bytes) (byte.toNat - 128 + 128 * n)

/-- The bytes spell a number, perhaps with needless groups. -/
structure SpellsNumber (bytes : List UInt8) (n : Nat) : Prop where
  groups : Groups bytes n
  length_le : bytes.length ≤ 10
  lt : n < 2 ^ 64

/-- The bytes spell a key. -/
structure SpellsKey (bytes : List UInt8) (key : Key) : Prop where
  number : SpellsNumber bytes key.toNat
  pos : 0 < key.number
  lt : key.number < 2 ^ 29

/-- A byte below 128 spells itself. -/
theorem SpellsNumber.single {byte : UInt8} (h : byte.toNat < 128) :
    SpellsNumber [byte] byte.toNat :=
  ⟨.last h, by simp, by omega⟩

theorem SpellsKey.single {byte : UInt8} {key : Key} (h : byte.toNat < 128)
    (hkey : key.toNat = byte.toNat) (hpos : 0 < key.number) : SpellsKey [byte] key := by
  refine ⟨hkey ▸ .single h, hpos, ?_⟩
  rw [Key.toNat] at hkey
  omega

/-- Groups are read if there are not too many of them and the last one holds no more than it may. -/
theorem Groups.readGroups_eq {bytes : List UInt8} {n : Nat} (h : Groups bytes n) {groups : Nat}
    (hlength : bytes.length ≤ groups + 1) (hlt : n < 2 * 128 ^ groups) (tail : List UInt8) :
    readGroups (groups + 1) (.ofList (bytes ++ tail)) = some (n, .ofList tail) := by
  induction h generalizing groups with
  | @last byte low =>
      have hlast : ¬ (groups = 0 ∧ 2 ≤ byte.toNat) := by
        rintro ⟨rfl, htwo⟩
        omega
      rw [List.singleton_append, readGroups, Input.next?_cons]
      simp only [if_pos low, if_neg hlast]
  | @more byte bytes n high others ih =>
      obtain ⟨groups, rfl⟩ : ∃ fewer, groups = fewer + 1 := by
        cases others <;> exact Nat.exists_eq_succ_of_ne_zero (by simp at hlength; omega)
      rw [Nat.pow_succ] at hlt
      have hothers := ih (by simpa using hlength) (by omega)
      rw [List.cons_append, readGroups, Input.next?_cons]
      simp only [if_neg (Nat.not_lt.mpr high), hothers]

theorem SpellsNumber.takes {bytes : List UInt8} {n : Nat} (h : SpellsNumber bytes n) :
    Takes readNumber bytes n := by
  intro tail
  have hlt : n < 2 * 128 ^ 9 := by
    have := h.lt
    omega
  rw [readNumber, readVarint, h.groups.readGroups_eq h.length_le hlt tail]

theorem SpellsKey.takes {bytes : List UInt8} {key : Key} (h : SpellsKey bytes key) :
    Takes readKey bytes key := by
  have hkey := h.number.takes.andThen (Key.takes_keyOfNumber h.pos h.lt)
  rw [readKey_eq_andThen]
  simpa using hkey

/-! ### Refusal -/

section

variable {α β : Type} {item : Read α} {cause : Cause}

/-- Whatever follows these bytes, the reader refuses them for this cause. -/
def Refuses (read : Read α) (bytes : List UInt8) (cause : Cause) : Prop :=
  ∀ tail, ∃ trail, read (.ofList (bytes ++ tail)) = .error ⟨cause, trail⟩

/-- Whatever follows these bytes, a loop that does not end before them refuses them for this
cause. -/
def Stops (item : Read α) (bytes : List UInt8) (cause : Cause) : Prop :=
  ∀ (tail : List UInt8) (stop : Nat) (done : List α), stop ≤ tail.length →
    ∃ trail, readUntil item stop done (.ofList (bytes ++ tail)) = .error ⟨cause, trail⟩

theorem Refuses.append {read : Read α} {bytes : List UInt8} (h : Refuses read bytes cause)
    (back : List UInt8) : Refuses read (bytes ++ back) cause := by
  intro tail
  rw [List.append_assoc]
  exact h (back ++ tail)

theorem Refuses.behind {first : Read α} {next : α → Read β} {front back : List UInt8} {value : α}
    (hfirst : Takes first front value) (hnext : Refuses (next value) back cause) :
    Refuses (first.andThen next) (front ++ back) cause := by
  intro tail
  rw [Read.andThen, List.append_assoc, hfirst]
  exact hnext tail

theorem Refuses.map {read : Read α} {bytes : List UInt8} (h : Refuses read bytes cause)
    (f : α → β) : Refuses (read.map f) bytes cause := by
  intro tail
  obtain ⟨trail, htrail⟩ := h tail
  exact ⟨trail, by rw [Read.map, htrail]; rfl⟩

theorem Refuses.within {read : Read α} {bytes : List UInt8} (h : Refuses read bytes cause)
    (type : MessageType) (name : String) :
    Refuses (fun input => (read input).mapError fun fault => fault.within type name) bytes
      cause := by
  intro tail
  obtain ⟨trail, htrail⟩ := h tail
  refine ⟨trail ++ [(type, name)], ?_⟩
  dsimp only
  rw [htrail]
  rfl

/-- A loop reads the items in front of what is refused, and then refuses. -/
theorem Run.stops {front bytes : List UInt8} {values : List α} (run : Run item front values)
    (moves : bytes ≠ []) (h : Refuses item bytes cause) : Stops item (front ++ bytes) cause := by
  intro tail stop done hstop
  have hbytes : 0 < bytes.length := List.length_pos_iff.mpr moves
  induction run generalizing done with
  | nil =>
      obtain ⟨trail, htrail⟩ := h tail
      refine ⟨trail, ?_⟩
      rw [List.nil_append, readUntil, if_neg (by simp; omega), htrail]
  | @cons taken front value values moves takes others ih =>
      have htaken : 0 < taken.length := List.length_pos_iff.mpr moves
      obtain ⟨trail, htrail⟩ := ih (value :: done)
      refine ⟨trail, ?_⟩
      have hinput : taken ++ front ++ bytes ++ tail = taken ++ (front ++ bytes ++ tail) := by
        simp only [List.append_assoc]
      rw [hinput, readUntil, if_neg (by simp; omega), takes]
      dsimp only
      rw [if_pos (by simp; omega), htrail]

theorem Stops.append {bytes : List UInt8} (h : Stops item bytes cause) (back : List UInt8) :
    Stops item (bytes ++ back) cause := by
  intro tail stop done hstop
  rw [List.append_assoc]
  exact h (back ++ tail) stop done (by rw [List.length_append]; omega)

/-- What a loop refuses is refused behind its length. -/
theorem Stops.refuses_readDelimited {length body : List UInt8} (h : Stops item body cause)
    (hlength : Takes readNumber length body.length) :
    Refuses (readDelimited item) (length ++ body) cause := by
  intro tail
  obtain ⟨trail, htrail⟩ := h tail tail.length [] (Nat.le_refl _)
  have hstop : (Input.ofList (body ++ tail)).size - body.length = tail.length := by simp
  refine ⟨trail, ?_⟩
  rw [List.append_assoc, readDelimited, hlength]
  dsimp only
  rw [if_neg (by simp), hstop, htrail]

end

theorem refuses_readValue_of_flags {budget : Nat} {nested : MessageType → Read (List Field)}
    {spec : FieldSpec} {payload : List UInt8} {cause : Cause} (hkind : spec.kind = .flags)
    (wire : WireType) (h : Refuses (readEntry budget) payload cause) :
    Refuses (readValue budget nested spec wire) payload cause := by
  rw [readValue_of_flags hkind]
  exact h.map fun entry => Field.entry spec.number entry.1 entry.2

theorem refuses_readValue_of_message {budget : Nat} {nested : MessageType → Read (List Field)}
    {spec : FieldSpec} {inner : MessageType} {payload : List UInt8} {cause : Cause}
    (hkind : spec.kind = .message inner ∨ spec.kind = .repeated inner)
    (h : Refuses (nested inner) payload cause) :
    Refuses (readValue budget nested spec .delimited) payload cause := by
  rw [readValue_of_message hkind]
  exact h.map (Field.message spec.number)

/-! ### Payloads that are passed over -/

mutual

/-- The payload, of this wire type and nested so deep, of a field with this number. -/
inductive Payload : WireType → (number depth : Nat) → List UInt8 → Prop
  | varint {number n : Nat} {bytes : List UInt8} (value : SpellsNumber bytes n) :
      Payload .varint number 1 bytes
  | fixed64 {number : Nat} {bytes : List UInt8} (eight : bytes.length = 8) :
      Payload .fixed64 number 1 bytes
  | fixed32 {number : Nat} {bytes : List UInt8} (four : bytes.length = 4) :
      Payload .fixed32 number 1 bytes
  | delimited {number : Nat} {length content : List UInt8}
      (size : SpellsNumber length content.length) :
      Payload .delimited number 1 (length ++ content)
  | group {number depth : Nat} {bytes : List UInt8} (fields : GroupFields number depth bytes) :
      Payload .startGroup number (depth + 1) bytes

/-- The fields of a group with this number, nested so deep at most, and the key that ends it. -/
inductive GroupFields : (number depth : Nat) → List UInt8 → Prop
  | close {number : Nat} {key : List UInt8} (hkey : SpellsKey key ⟨number, .endGroup⟩) :
      GroupFields number 0 key
  | field {number inner depth depth' : Nat} {wire : WireType} {key payload others : List UInt8}
      (hkey : SpellsKey key ⟨inner, wire⟩) (hpayload : Payload wire inner depth payload)
      (hothers : GroupFields number depth' others) :
      GroupFields number (max depth depth') (key ++ payload ++ others)

end

/-- A payload does not end a group. -/
theorem Payload.wire_ne_endGroup {wire : WireType} {number depth : Nat} {bytes : List UInt8}
    (h : Payload wire number depth bytes) : wire ≠ .endGroup := by
  rintro rfl
  cases h

theorem takes_skipBytes (bytes : List UInt8) :
    Takes (passing (skipBytes bytes.length)) bytes () := by
  intro tail
  rw [passing_eq_ok_iff, skipBytes, if_neg (by simp)]
  simp

mutual

/-- Within the budget a payload is passed over. -/
theorem Payload.takes_skip {wire : WireType} {number depth : Nat} {bytes : List UInt8} :
    Payload wire number depth bytes → ∀ {budget : Nat}, depth ≤ budget →
      Takes (passing (skip budget wire number)) bytes ()
  | .varint value, budget + 1, _ => fun tail => by
      rw [passing_eq_ok_iff, skip, value.takes tail]
      rfl
  | .fixed64 eight, budget + 1, _ => by
      have htakes := takes_skipBytes bytes
      rwa [eight] at htakes
  | .fixed32 four, budget + 1, _ => by
      have htakes := takes_skipBytes bytes
      rwa [four] at htakes
  | .delimited size, budget + 1, _ => fun tail => by
      rw [passing_eq_ok_iff, skip, List.append_assoc, size.takes]
      exact passing_eq_ok_iff.mp (takes_skipBytes _ tail)
  | .group fields, budget + 1, h => fields.takes_skipGroup (Nat.le_of_succ_le_succ h)

/-- Within the budget the rest of a group is passed over. -/
theorem GroupFields.takes_skipGroup {number depth : Nat} {bytes : List UInt8} :
    GroupFields number depth bytes → ∀ {budget : Nat}, depth ≤ budget →
      Takes (passing (skipGroup (skip budget) number)) bytes ()
  | .close hkey, _, _ => hkey.takes.skipGroup_end
  | .field hkey hpayload hothers, _, h =>
      hkey.takes.skipGroup_field hpayload.wire_ne_endGroup
        (hpayload.takes_skip (Nat.le_trans (Nat.le_max_left _ _) h))
        (hothers.takes_skipGroup (Nat.le_trans (Nat.le_max_right _ _) h))

end

/-! ### Payloads that nest too deeply -/

theorem passing_eq_error {pass : Input → Except Fault Input} {input : Input} {fault : Fault}
    (h : pass input = .error fault) : passing pass input = .error fault := by
  rw [passing, h]
  rfl

theorem eq_error_of_passing {pass : Input → Except Fault Input} {input : Input} {fault : Fault}
    (h : passing pass input = .error fault) : pass input = .error fault := by
  unfold passing at h
  cases hpass : pass input with
  | error other =>
      rw [hpass] at h
      cases h
      rfl
  | ok rest =>
      rw [hpass] at h
      cases h

section

variable {skip : WireType → Nat → Input → Except Fault Input} {number : Nat} {key : Key}
  {front payload others : List UInt8} {cause : Cause}

/-- A group is refused with the field that is read next. -/
theorem Refuses.skipGroup_first (hkey : Takes readKey front key) (hwire : key.wire ≠ .endGroup)
    (h : Refuses (passing (skip key.wire key.number)) payload cause) :
    Refuses (passing (skipGroup skip number)) (front ++ payload ++ others) cause := by
  intro tail
  obtain ⟨trail, htrail⟩ := h.append others tail
  refine ⟨trail, passing_eq_error ?_⟩
  rw [List.append_assoc, List.append_assoc, skipGroup, hkey, ← List.append_assoc]
  simp only [if_neg hwire, eq_error_of_passing htrail]

/-- A group is refused with the fields behind one that is passed over. -/
theorem Refuses.skipGroup_later (hkey : Takes readKey front key) (hwire : key.wire ≠ .endGroup)
    (hskip : Takes (passing (skip key.wire key.number)) payload ())
    (h : Refuses (passing (skipGroup skip number)) others cause) :
    Refuses (passing (skipGroup skip number)) (front ++ payload ++ others) cause := by
  intro tail
  obtain ⟨trail, htrail⟩ := h tail
  have hpayload := passing_eq_ok_iff.mp (hskip (others ++ tail))
  have hfront : 0 < front.length := List.length_pos_iff.mpr hkey.readKey_ne_nil
  have hshorter : (Input.ofList (others ++ tail)).size
      < (Input.ofList (front ++ (payload ++ (others ++ tail)))).size := by
    simp only [Input.size_ofList, List.length_append]
    omega
  refine ⟨trail, passing_eq_error ?_⟩
  rw [List.append_assoc, List.append_assoc, skipGroup, hkey]
  simp only [if_neg hwire, hpayload, if_pos hshorter, eq_error_of_passing htrail]

end

mutual

/-- Beyond the budget a payload is refused. -/
theorem Payload.skip_tooDeep {wire : WireType} {number depth : Nat} {bytes : List UInt8} :
    Payload wire number depth bytes → ∀ {budget : Nat}, budget < depth →
      Refuses (passing (skip budget wire number)) bytes .tooDeep
  | .group fields, budget + 1, h => fields.skipGroup_tooDeep (Nat.lt_of_succ_lt_succ h)
  | .varint _, 0, _ | .fixed64 _, 0, _ | .fixed32 _, 0, _ | .delimited _, 0, _ | .group _, 0, _ =>
      fun _ => ⟨[], rfl⟩

/-- Beyond the budget the rest of a group is refused. -/
theorem GroupFields.skipGroup_tooDeep {number depth : Nat} {bytes : List UInt8} :
    GroupFields number depth bytes → ∀ {budget : Nat}, budget < depth →
      Refuses (passing (skipGroup (skip budget) number)) bytes .tooDeep
  | @GroupFields.field _ _ first _ _ _ _ _ hkey hpayload hothers, budget, h => by
      by_cases hfirst : budget < first
      · exact .skipGroup_first hkey.takes hpayload.wire_ne_endGroup (hpayload.skip_tooDeep hfirst)
      · have htakes := hpayload.takes_skip (Nat.le_of_not_lt hfirst)
        exact .skipGroup_later hkey.takes hpayload.wire_ne_endGroup htakes
          (hothers.skipGroup_tooDeep (by omega))

end

/-! ### Fields -/

/-- The bytes spell a field under this number, nested so deep. -/
inductive SpellsField (number depth : Nat) : List UInt8 → Prop
  | intro {wire : WireType} {key payload : List UInt8} (hkey : SpellsKey key ⟨number, wire⟩)
      (hpayload : Payload wire number depth payload) : SpellsField number depth (key ++ payload)

section

variable {number depth budget : Nat} {bytes : List UInt8} {type : MessageType}

theorem SpellsField.ne_nil (h : SpellsField number depth bytes) : bytes ≠ [] := by
  obtain ⟨hkey, -⟩ := h
  simp [hkey.takes.readKey_ne_nil]

theorem fieldBehind_undeclared {nested : MessageType → Read (List Field)} {wire : WireType}
    (hnone : type.field? number = none) :
    fieldBehind budget nested type ⟨number, wire⟩
      = Read.map (fun _ => .unknown number) (passing (skip budget wire number)) := by
  rw [map_passing]
  funext rest
  rw [fieldBehind, hnone]

theorem entryFieldBehind_undeclared {wire : WireType} (hkey : number ≠ 1) (hflag : number ≠ 2) :
    entryFieldBehind budget ⟨number, wire⟩
      = Read.map (fun _ => .unknown) (passing (skip budget wire number)) := by
  rw [map_passing]
  funext rest
  unfold entryFieldBehind
  split
  · exact absurd ‹_› hkey
  · exact absurd ‹_› hflag
  · rfl

/-- Within the budget a field that the message does not declare is passed over. -/
theorem SpellsField.takes_readField (h : SpellsField number depth bytes)
    (hnone : type.field? number = none) (hbudget : depth ≤ budget) :
    Takes (readField budget type) bytes (.unknown number) := by
  obtain ⟨hkey, hpayload⟩ := h
  rw [readField_eq, readFieldWith_eq_andThen]
  refine hkey.takes.andThen ?_
  rw [fieldBehind_undeclared hnone]
  exact (hpayload.takes_skip hbudget).map _

/-- Beyond the budget a field that the message does not declare is refused. -/
theorem SpellsField.refuses_readField (h : SpellsField number depth bytes)
    (hnone : type.field? number = none) (hbudget : budget < depth) :
    Refuses (readField budget type) bytes .tooDeep := by
  obtain ⟨hkey, hpayload⟩ := h
  rw [readField_eq, readFieldWith_eq_andThen]
  refine .behind hkey.takes ?_
  rw [fieldBehind_undeclared hnone]
  exact (hpayload.skip_tooDeep hbudget).map _

/-- Within the budget a field of a map entry that is neither key nor flag is passed over. -/
theorem SpellsField.takes_readEntryField (h : SpellsField number depth bytes) (hne : number ≠ 1)
    (hne' : number ≠ 2) (hbudget : depth ≤ budget) :
    Takes (readEntryField budget) bytes .unknown := by
  obtain ⟨hkey, hpayload⟩ := h
  rw [readEntryField_eq_andThen]
  refine hkey.takes.andThen ?_
  rw [entryFieldBehind_undeclared hne hne']
  exact (hpayload.takes_skip hbudget).map _

/-- Beyond the budget a field of a map entry that is neither key nor flag is refused. -/
theorem SpellsField.refuses_readEntryField (h : SpellsField number depth bytes) (hne : number ≠ 1)
    (hne' : number ≠ 2) (hbudget : budget < depth) :
    Refuses (readEntryField budget) bytes .tooDeep := by
  obtain ⟨hkey, hpayload⟩ := h
  rw [readEntryField_eq_andThen]
  refine .behind hkey.takes ?_
  rw [entryFieldBehind_undeclared hne hne']
  exact (hpayload.skip_tooDeep hbudget).map _

end

end NodeView.Wire
