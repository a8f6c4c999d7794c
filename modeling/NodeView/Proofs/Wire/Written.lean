import NodeView.Proofs.Wire.Run
/-!
# NodeView.Proofs.Wire.Written

What was written is read back.

Each piece of the binary form is taken by its reader in front of anything (`takes_writeVarint`,
`Key.takes_write`, `takes_readText`, `takes_readEntry`). Fields that a message may have
(`Field.Fits`) are a run of their own binary form, whatever their order
(`FieldsFit.run_writeFields`), so that reading a message from them gives exactly these fields
(`readFields_writeFields`).

The only bound is the one that a length has on the wire: the form takes less than 2^64 bytes.
-/

namespace NodeView.Wire

/-! ### Numbers -/

theorem toNat_toUInt8 {n : Nat} (h : n < 256) : n.toUInt8.toNat = n := by
  simp [Nat.mod_eq_of_lt h]

/-- A number is read back from its groups of seven bits, of which the last one may be a single
bit. -/
theorem readGroups_writeVarint {groups n : Nat} (h : n < 2 * 128 ^ groups) (tail : List UInt8) :
    readGroups (groups + 1) (.ofList (writeVarint n ++ tail)) = some (n, .ofList tail) := by
  induction groups generalizing n with
  | zero =>
      -- One bit is left, which is what the last group may hold.
      have hbyte := toNat_toUInt8 (n := n) (by omega)
      rw [writeVarint, if_pos (by omega), List.singleton_append, readGroups, Input.next?_cons]
      simp only [hbyte]
      rw [if_pos (by omega), if_neg (by omega)]
  | succ groups ih =>
      rw [writeVarint]
      split
      · rename_i hlow
        have hbyte := toNat_toUInt8 (n := n) (by omega)
        rw [List.singleton_append, readGroups, Input.next?_cons]
        simp only [hbyte]
        rw [if_pos hlow, if_neg (by omega)]
      · rename_i hhigh
        have hbyte := toNat_toUInt8 (n := n % 128 + 128) (by omega)
        have hrest := ih (n := n / 128) (by rw [Nat.pow_succ] at h; omega)
        rw [List.cons_append, readGroups, Input.next?_cons]
        simp only [hbyte, hrest]
        rw [if_neg (by omega)]
        simp only [Option.some.injEq, Prod.mk.injEq, and_true]
        omega

theorem takes_writeVarint {n : Nat} (h : n < 2 ^ 64) : Takes readNumber (writeVarint n) n := by
  intro tail
  rw [readNumber, readVarint, readGroups_writeVarint (by omega) tail]

/-! ### Keys -/

/-- The number that stands for a key stands for no other one. -/
theorem Key.takes_keyOfNumber {key : Key} (hpos : 0 < key.number) (hlt : key.number < 2 ^ 29) :
    Takes (keyOfNumber key.toNat) [] key := by
  have hwire := key.wire.toNat_lt
  have hbits : key.toNat % 8 = key.wire.toNat := by rw [Key.toNat]; omega
  have hnumber : key.toNat / 8 = key.number := by rw [Key.toNat]; omega
  have hsmall : key.toNat < 2 ^ 32 := by rw [Key.toNat]; omega
  intro tail
  rw [keyOfNumber, if_neg (by omega), hbits, WireType.ofNat?_toNat, hnumber]
  dsimp only
  rw [if_neg (by omega)]
  rfl

/-- A key with a number from 1 up to 2^29, the least one that does not fit, is read back. -/
theorem Key.takes_write {key : Key} (hpos : 0 < key.number) (hlt : key.number < 2 ^ 29) :
    Takes readKey key.write key := by
  have hwire := key.wire.toNat_lt
  have hsmall : key.toNat < 2 ^ 64 := by rw [Key.toNat]; omega
  rw [readKey_eq_andThen]
  simpa [Key.write] using (takes_writeVarint hsmall).andThen (takes_keyOfNumber hpos hlt)

theorem Key.write_ne_nil (key : Key) : key.write ≠ [] := by
  intro h
  have hsize := varintSize_pos key.toNat
  rw [← length_writeVarint, ← Key.write, h] at hsize
  exact Nat.not_succ_le_zero _ hsize

/-! ### Texts and entries -/

theorem fromUTF8?_textBytes (s : String) :
    String.fromUTF8? (textBytes s).toByteArray = some s := by
  have hbytes : (textBytes s).toByteArray = s.toByteArray := ByteArray.ext (by simp [textBytes])
  rw [hbytes, String.fromUTF8?, dif_pos s.isValidUTF8]
  rfl

theorem takes_readText {s : String} (h : s.utf8ByteSize < 2 ^ 64) :
    Takes (readText .delimited) (delimited (textBytes s)) s := by
  have hlength := takes_writeVarint (n := (textBytes s).length) (by simpa using h)
  have htext : Takes (textOfBytes (textBytes s)) [] s := by
    intro tail
    rw [textOfBytes, fromUTF8?_textBytes]
    rfl
  have hbody : Takes (Read.andThen (chunk (textBytes s).length) textOfBytes) (textBytes s) s := by
    simpa using (takes_chunk (textBytes s)).andThen htext
  have hread : Takes (Read.andThen readNumber fun length => (chunk length).andThen textOfBytes)
      (delimited (textBytes s)) s := hlength.andThen hbody
  rw [funext (readText_eq .delimited)]
  exact hread

/-- The parts of a map entry that are written. -/
def entryParts (key : String) (flag : Bool) : List EntryField :=
  (if key = "" then [] else [.key key]) ++ (if flag then [.flag true] else [])

theorem entryOfFields_entryParts (key : String) (flag : Bool) :
    entryOfFields (entryParts key flag) = (key, flag) := by
  unfold entryParts
  by_cases hkey : key = "" <;> cases flag <;> simp [entryOfFields, absorbEntry, hkey]

theorem run_entryBytes {key : String} {flag : Bool} (h : entrySize key flag < 2 ^ 64)
    (budget : Nat) :
    Run (readEntryField budget) (entryBytes key flag) (entryParts key flag) := by
  refine Run.append ?_ ?_
  · split
    · exact .nil
    · rename_i hkey
      have hsize : key.utf8ByteSize < 2 ^ 64 := by
        rw [entrySize, if_neg hkey, delimitedSize] at h
        omega
      have hnumber : Takes readKey (Key.mk 1 .delimited).write ⟨1, .delimited⟩ :=
        Key.takes_write (by decide) (by decide)
      have htext : Takes (entryFieldBehind budget ⟨1, .delimited⟩) (delimited (textBytes key))
          (.key key) := (takes_readText hsize).map EntryField.key
      refine .single (by simp [Key.write_ne_nil]) ?_
      rw [readEntryField_eq_andThen]
      exact hnumber.andThen htext
  · split
    · have hnumber : Takes readKey (Key.mk 2 .varint).write ⟨2, .varint⟩ :=
        Key.takes_write (by decide) (by decide)
      have hflag : Takes (entryFieldBehind budget ⟨2, .varint⟩) (writeVarint 1) (.flag true) :=
        (takes_writeVarint (n := 1) (by decide)).map fun n => EntryField.flag (n != 0)
      refine .single (by simp [Key.write_ne_nil]) ?_
      rw [readEntryField_eq_andThen]
      exact hnumber.andThen hflag
    · exact .nil

theorem takes_readEntry {key : String} {flag : Bool} (h : entrySize key flag < 2 ^ 64)
    (budget : Nat) :
    Takes (readEntry (budget + 1)) (delimited (entryBytes key flag)) (key, flag) := by
  have hlength := takes_writeVarint (n := (entryBytes key flag).length) (by simpa using h)
  have hentry := ((run_entryBytes h budget).takes_readDelimited hlength).map entryOfFields
  rwa [entryOfFields_entryParts] at hentry

end NodeView.Wire

/-! ### Fields that a message may have -/

namespace NodeView.MessageType

/-- The kind of the field that a number names. -/
def kind? (type : MessageType) (number : Nat) : Option FieldKind :=
  (type.field? number).map (·.kind)

theorem number_of_field? {type : MessageType} {number : Nat} {spec : FieldSpec}
    (h : type.field? number = some spec) : spec.number = number := by
  simpa using List.find?_some h

/-- A declared number is neither zero nor too large for a key. -/
theorem number_bounds {type : MessageType} {number : Nat} {spec : FieldSpec}
    (h : type.field? number = some spec) : 0 < number ∧ number < 2 ^ 29 := by
  have hall : ∀ spec ∈ type.fields, 0 < spec.number ∧ spec.number < 2 ^ 29 := by
    cases type <;> decide
  exact number_of_field? h ▸ hall spec (List.mem_of_find?_eq_some h)

end NodeView.MessageType

namespace NodeView.Wire

mutual

/-- A message of this type may have this field: the number is declared with the kind of the
value, and messages and entries nest no deeper than the budget allows. -/
def Field.Fits (budget : Nat) (type : MessageType) : Field → Prop
  | .text n _ => type.kind? n = some .text
  | .int64 n _ => type.kind? n = some .int64
  | .uint64 n _ => type.kind? n = some .uint64
  | .uint32 n _ => type.kind? n = some .uint32
  | .entry n _ _ => type.kind? n = some .flags ∧ 0 < budget
  | .message n fields =>
    ∃ inner, (type.kind? n = some (.message inner) ∨ type.kind? n = some (.repeated inner))
      ∧ 0 < budget ∧ FieldsFit (budget - 1) inner fields
  | .unknown _ => False

/-- A message of this type may have all these fields. -/
def FieldsFit (budget : Nat) (type : MessageType) : List Field → Prop
  | [] => True
  | field :: fields => field.Fits budget type ∧ FieldsFit budget type fields

end

theorem fieldsFit_iff {budget : Nat} {type : MessageType} {fields : List Field} :
    FieldsFit budget type fields ↔ ∀ field ∈ fields, field.Fits budget type := by
  induction fields with
  | nil => simp [FieldsFit]
  | cons field fields ih => simp [FieldsFit, ih]

theorem fieldsFit_append {budget : Nat} {type : MessageType} {as bs : List Field} :
    FieldsFit budget type (as ++ bs) ↔ FieldsFit budget type as ∧ FieldsFit budget type bs := by
  simp only [fieldsFit_iff, List.mem_append, or_imp, forall_and]

/-- A declared field is read from its key, however that is spelled, and its payload. -/
theorem takes_readField_of_key {budget : Nat} {type : MessageType} {spec : FieldSpec} {key : Key}
    {front payload : List UInt8} {field : Field} (hkey : Takes readKey front key)
    (hspec : type.field? key.number = some spec)
    (hvalue : Takes (readValue budget (readNested budget) spec key.wire) payload field) :
    Takes (readField budget type) (front ++ payload) field := by
  have hbehind : Takes (fieldBehind budget (readNested budget) type key) payload field := by
    intro tail
    simp only [fieldBehind, hspec, hvalue tail]
    rfl
  rw [readField_eq, readFieldWith_eq_andThen]
  exact hkey.andThen hbehind

/-- A declared field is read from its key and its payload. -/
theorem takes_readField {budget : Nat} {type : MessageType} {spec : FieldSpec} {wire : WireType}
    {number : Nat} {payload : List UInt8} {field : Field} (hspec : type.field? number = some spec)
    (hvalue : Takes (readValue budget (readNested budget) spec wire) payload field) :
    Takes (readField budget type) ((Key.mk number wire).write ++ payload) field := by
  obtain ⟨hpos, hlt⟩ := MessageType.number_bounds hspec
  exact takes_readField_of_key (Key.takes_write hpos hlt) hspec hvalue

theorem exists_field?_of_kind? {type : MessageType} {number : Nat} {kind : FieldKind}
    (h : type.kind? number = some kind) :
    ∃ spec, type.field? number = some spec ∧ spec.kind = kind ∧ spec.number = number := by
  obtain ⟨spec, hspec, hkind⟩ := Option.map_eq_some_iff.mp h
  exact ⟨spec, hspec, hkind, MessageType.number_of_field? hspec⟩

mutual

/-- A field that a message may have is read back from its binary form. -/
theorem Field.Fits.takes_write {budget : Nat} {type : MessageType} :
    ∀ {field : Field}, field.Fits budget type → field.size < 2 ^ 64 →
      Takes (readField budget type) field.write field
  | .text n s, h, hsize => by
      obtain ⟨spec, hspec, hkind, rfl⟩ := exists_field?_of_kind? h
      have htext : s.utf8ByteSize < 2 ^ 64 := by
        rw [Field.size, delimitedSize] at hsize
        omega
      refine takes_readField hspec ?_
      unfold readValue
      simp only [hkind]
      exact (takes_readText htext).map (Field.text spec.number)
  | .int64 n v, h, hsize => by
      obtain ⟨spec, hspec, hkind, rfl⟩ := exists_field?_of_kind? h
      refine takes_readField hspec ?_
      unfold readValue
      simp only [hkind]
      have hbits := (takes_writeVarint v.toUInt64.toNat_lt).map fun n =>
        Field.int64 spec.number (UInt64.ofNat n).toInt64
      have hvalue : (UInt64.ofNat v.toUInt64.toNat).toInt64 = v := by simp
      rwa [hvalue] at hbits
  | .uint64 n v, h, hsize => by
      obtain ⟨spec, hspec, hkind, rfl⟩ := exists_field?_of_kind? h
      refine takes_readField hspec ?_
      unfold readValue
      simp only [hkind]
      have hbits := (takes_writeVarint v.toNat_lt).map fun n =>
        Field.uint64 spec.number (UInt64.ofNat n)
      rwa [UInt64.ofNat_toNat] at hbits
  | .uint32 n v, h, hsize => by
      obtain ⟨spec, hspec, hkind, rfl⟩ := exists_field?_of_kind? h
      refine takes_readField hspec ?_
      unfold readValue
      simp only [hkind]
      have hlt : v.toNat < 2 ^ 64 := Nat.lt_trans v.toNat_lt (by decide)
      have hbits := (takes_writeVarint hlt).map fun n =>
        Field.uint32 spec.number (UInt32.ofNat n)
      rwa [UInt32.ofNat_toNat] at hbits
  | .entry n key flag, h, hsize => by
      obtain ⟨hdeclared, hbudget⟩ := h
      obtain ⟨spec, hspec, hkind, rfl⟩ := exists_field?_of_kind? hdeclared
      obtain ⟨budget, rfl⟩ := Nat.exists_eq_succ_of_ne_zero (Nat.ne_of_gt hbudget)
      have hentry : entrySize key flag < 2 ^ 64 := by
        rw [Field.size, delimitedSize] at hsize
        omega
      exact takes_readField hspec (takes_readValue_of_flags hkind _ (takes_readEntry hentry budget))
  | .message n fields, h, hsize => by
      obtain ⟨inner, hdeclared, hbudget, hfields⟩ := h
      obtain ⟨budget, rfl⟩ := Nat.exists_eq_succ_of_ne_zero (Nat.ne_of_gt hbudget)
      have hbody : sizeFields fields < 2 ^ 64 := by
        rw [Field.size, delimitedSize] at hsize
        omega
      have hlength := takes_writeVarint (n := (writeFields fields).length) (by simpa using hbody)
      have hnested : Takes (readNested (budget + 1) inner) _ fields :=
        (FieldsFit.run_writeFields hfields hbody).takes_readDelimited hlength
      have hkind : ∃ spec, type.field? n = some spec ∧ spec.number = n
          ∧ (spec.kind = .message inner ∨ spec.kind = .repeated inner) := by
        rcases hdeclared with hdeclared | hdeclared
        all_goals
          obtain ⟨spec, hspec, hkind, hnumber⟩ := exists_field?_of_kind? hdeclared
          exact ⟨spec, hspec, hnumber, by simp [hkind]⟩
      obtain ⟨spec, hspec, rfl, hkind⟩ := hkind
      exact takes_readField hspec (takes_readValue_of_message hkind hnested)
  | .unknown n, h, hsize => h.elim

/-- Fields that a message may have are a run of their binary form. -/
theorem FieldsFit.run_writeFields {budget : Nat} {type : MessageType} :
    ∀ {fields : List Field}, FieldsFit budget type fields → sizeFields fields < 2 ^ 64 →
      Run (readField budget type) (writeFields fields) fields
  | [], _, _ => .nil
  | field :: fields, h, hsize => by
      obtain ⟨hfield, hfields⟩ := h
      rw [sizeFields] at hsize
      have takes := Field.Fits.takes_write hfield (by omega)
      exact .cons (readField_ne_nil takes) takes (FieldsFit.run_writeFields hfields (by omega))

end

/-- **What is written is read back**: fields that a message may have, in any order, come back
from their binary form. -/
theorem readFields_writeFields {type : MessageType} {fields : List Field}
    (h : FieldsFit nestingBudget type fields) (hsize : sizeFields fields < 2 ^ 64) :
    readFields type (writeFields fields) = .ok fields :=
  readFields_eq_ok_iff.mpr (h.run_writeFields hsize)

end NodeView.Wire
