import NodeView.Proofs.Message.Concatenation
/-!
# NodeView.Proofs.Wire.WireTypes

Declared fields that come with a wire type their kind does not have.

Bytes are `Mistyped` if they have such a field behind fields that are in order, in the message
itself or in a message nested in it, with anything behind its key. The key and the fields in
front of it are read alike whatever follows, so the reader gets to the value and refuses its wire
type before it reads anything (`readValue_of_ne`): mistyped bytes are no run of fields
(`Mistyped.not_run`), and no message (`Message.decode_mistyped`).

Maps are left out, because a map does not look at its wire type. An entry is accepted behind a
key of any wire type (`Message.decode_entry`).
-/

namespace NodeView

/-- The wire type of the payload of a field of this kind. -/
def FieldKind.wireType : FieldKind → Wire.WireType
  | .int64 | .uint64 | .uint32 => .varint
  | .text | .message _ | .repeated _ | .flags => .delimited

namespace Wire

/-- Bytes of a message of this type in which a declared field of one of some kinds comes with a
wire type other than that of its kind. Well-formed fields may stand in front of it, and anything
behind its key. The field may also be one of a nested message, where it counts as far as the
length of that message goes. -/
inductive Mistyped (kinds : FieldKind → Prop) : (budget : Nat) → MessageType → List UInt8 → Prop
  | here {budget : Nat} {type : MessageType} {front key rest : List UInt8} {fields : List Field}
      {number : Nat} {wire : WireType} {spec : FieldSpec}
      (run : Run (readField budget type) front fields)
      (hkey : Takes readKey key ⟨number, wire⟩) (hspec : type.field? number = some spec)
      (hkind : kinds spec.kind) (hwire : wire ≠ spec.kind.wireType) :
      Mistyped kinds budget type (front ++ (key ++ rest))
  | inside {budget : Nat} {type inner : MessageType} {front key length rest : List UInt8}
      {fields : List Field} {number size : Nat} {spec : FieldSpec}
      (run : Run (readField (budget + 1) type) front fields)
      (hkey : Takes readKey key ⟨number, .delimited⟩) (hspec : type.field? number = some spec)
      (hkind : spec.kind = .message inner ∨ spec.kind = .repeated inner)
      (hlength : Takes readNumber length size)
      (hinner : Mistyped kinds budget inner (rest.take size)) :
      Mistyped kinds (budget + 1) type (front ++ (key ++ (length ++ rest)))

/-! ### Refusal -/

theorem expect_of_ne {found expected : WireType} (h : found ≠ expected) :
    expect found expected = fail (.wrongWireType found expected) := if_neg h

/-- Except for maps, a value is refused for its wire type before anything of it is read. -/
theorem readValue_of_ne {budget : Nat} {nested : MessageType → Read (List Field)}
    {spec : FieldSpec} {wire : WireType} (hkind : spec.kind ≠ .flags)
    (hwire : wire ≠ spec.kind.wireType) (input : Input) :
    readValue budget nested spec wire input
      = fail (.wrongWireType wire spec.kind.wireType) := by
  unfold readValue
  cases h : spec.kind with
  | flags => exact absurd h hkind
  | text =>
      simp only [h, FieldKind.wireType] at hwire ⊢
      simp only [readText, expect_of_ne hwire]
      rfl
  | int64 | uint64 | uint32 =>
      simp only [h, FieldKind.wireType] at hwire ⊢
      simp only [readInteger, expect_of_ne hwire]
      rfl
  | message type | «repeated» type =>
      simp only [h, FieldKind.wireType] at hwire ⊢
      simp only [expect_of_ne hwire]
      rfl

/-- **Mistyped bytes are no run of fields**, whatever stands behind the wrong wire type. -/
theorem Mistyped.not_run {budget : Nat} {type : MessageType} {bytes : List UInt8}
    (h : Mistyped (· ≠ .flags) budget type bytes) (all : List Field) :
    ¬ Run (readField budget type) bytes all := by
  induction h generalizing all with
  | here front hkey hspec hkind hwire =>
      intro run
      obtain ⟨others, -, run⟩ := front.of_append run
      obtain ⟨field, _, after, -, hfield, -⟩ := run.exists_fieldBehind hkey
      have hvalue := fieldBehind_eq_ok hspec hfield
      rw [readValue_of_ne hkind hwire] at hvalue
      cases hvalue
  | inside front hkey hspec hkind hlength _ ih =>
      intro run
      obtain ⟨others, -, run⟩ := front.of_append run
      obtain ⟨field, _, after, -, hfield, -⟩ := run.exists_fieldBehind hkey
      obtain ⟨fields, hnested, -⟩ :=
        exists_nested_of_readValue hkind (fieldBehind_eq_ok hspec hfield)
      exact ih fields (exists_run_take_of_readDelimited (readField_local _ _) hlength hnested).1

end Wire

namespace Message

open Wire (Mistyped Field Key WireType)

/-- A declared field with the wrong wire type, at any level and wherever in the bytes, is
refused unless the field is a map: within the limit no message is made of the bytes. -/
theorem decode_mistyped {type : MessageType} {bytes : List UInt8}
    (h : Mistyped (· ≠ .flags) Wire.nestingBudget type bytes) (limit : Nat) :
    ∃ fault, decode type bytes limit
      = .error (if limit < bytes.length then .tooLarge bytes.length limit else .binary fault) := by
  cases hread : Wire.readFields type bytes with
  | ok fields => exact absurd (Wire.readFields_eq_ok_iff.mp hread) (h.not_run fields)
  | error fault =>
      refine ⟨fault, ?_⟩
      rw [decode, hread]
      split <;> rfl

/-- A time of a record in a response, with the wire type of a text. -/
theorem decode_mistyped_timestamp :
    Mistyped (· ≠ .flags) Wire.nestingBudget .mempoolResponse [0x0a, 0x02, 0x12, 0x00]
      ∧ ∃ fault, decode .mempoolResponse [0x0a, 0x02, 0x12, 0x00] 4 = .error (.binary fault) := by
  have htimestamp : Wire.Takes Wire.readKey [0x12] ⟨2, .delimited⟩ := fun _ => rfl
  have hrecords : Wire.Takes Wire.readKey [0x0a] ⟨1, .delimited⟩ := fun _ => rfl
  have hlength : Wire.Takes Wire.readNumber [0x02] 2 := fun _ => rfl
  have hinner : Mistyped (· ≠ .flags) 99 .transactionRecord [0x12, 0x00] :=
    .here .nil htimestamp rfl (by decide) (by decide)
  have hrecord :
      Mistyped (· ≠ .flags) Wire.nestingBudget .mempoolResponse [0x0a, 0x02, 0x12, 0x00] :=
    .inside .nil hrecords rfl (.inr rfl) hlength hinner
  exact ⟨hrecord, decode_mistyped hrecord 4⟩

/-- An entry of a map is accepted behind a key of any wire type. -/
theorem decode_entry (wire : WireType) (key : String) (flag : Bool) (limit : UInt64)
    (hsize : ((Key.mk 9 wire).write ++ Wire.delimited (Wire.entryBytes key flag)).length
      ≤ limit.toNat) :
    decode .transactionRecord
        ((Key.mk 9 wire).write ++ Wire.delimited (Wire.entryBytes key flag)) limit.toNat
      = .ok (.transactionRecord { validators := .ofList [(key, flag)] }) := by
  have hentry : Wire.entrySize key flag < 2 ^ 64 := by
    have hlimit := limit.toNat_lt
    rw [List.length_append, Wire.length_delimited, Wire.length_entryBytes,
      Wire.delimitedSize] at hsize
    omega
  have hspec : MessageType.transactionRecord.field? 9
      = some ⟨9, "validators", "validators", .flags⟩ := rfl
  have takes : Wire.Takes (Wire.readField Wire.nestingBudget .transactionRecord)
      ((Key.mk 9 wire).write ++ Wire.delimited (Wire.entryBytes key flag))
      (.entry 9 key flag) :=
    Wire.takes_readField hspec
      ((Wire.takes_readEntry hentry 99).map fun entry => Field.entry 9 entry.1 entry.2)
  exact (decode_eq_ok_iff_run hsize).mpr
    ⟨[.entry 9 key flag], .single (Wire.readField_ne_nil takes) takes, rfl⟩

/-- Votes with the wire type of an integer are mistyped, and still an entry. -/
theorem decode_varint_entry :
    Mistyped (fun _ => True) Wire.nestingBudget .transactionRecord [0x48, 0x00]
      ∧ decode .transactionRecord [0x48, 0x00]
        = .ok (.transactionRecord { validators := .ofList [("", false)] }) := by
  have hwrite : (Key.mk 9 .varint).write ++ Wire.delimited (Wire.entryBytes "" false)
      = [0x48, 0x00] := by
    decide +kernel
  have hvalidators : Wire.Takes Wire.readKey [0x48] ⟨9, .varint⟩ := fun _ => rfl
  refine ⟨.here .nil hvalidators rfl trivial (by decide), ?_⟩
  rw [← hwrite]
  exact decode_entry .varint "" false 4194304 (by rw [hwrite]; decide)

end Message

end NodeView
