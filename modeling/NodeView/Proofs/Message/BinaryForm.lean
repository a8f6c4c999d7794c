import Mathlib.Data.List.Forall2
import NodeView.Message.Decode
import NodeView.Proofs.Message.Merge
import NodeView.Proofs.Wire.Written
/-!
# NodeView.Proofs.Message.BinaryForm

The binary forms of a message, and that each of them is read back.

The votes of a transaction have no order of their own, so a message has as many binary forms as
there are ways to order the votes of its transactions. All of them have the same size
(`Message.BinaryForm.length_eq`), and all of them are read as the message, unless they are longer
than the limit (`Message.decode_binaryForm`).
-/

namespace NodeView

open Wire (Field FieldsFit)

/-! ### Orders of votes -/

/-- The fields of a transaction with its votes in some order. -/
def TransactionRecord.Lists (record : TransactionRecord) (fields : List Field) : Prop :=
  ∃ votes : List (String × Bool),
    votes.Perm record.validators.entries ∧ fields = record.fieldsWith votes

/-- The field that a transaction with its votes in some order is in a response. -/
def TransactionRecord.ListedAs (record : TransactionRecord) (field : Field) : Prop :=
  ∃ own, record.Lists own ∧ field = .message 1 own

namespace Message

/-- The fields of a message with the votes of each transaction in some order. -/
def Lists : Message → List Field → Prop
  | .mempoolResponse response, fields =>
    List.Forall₂ TransactionRecord.ListedAs response.transactionRecords fields
  | .transactionRecord record, fields => record.Lists fields
  | message, fields => fields = message.fields

/-- The bytes that write a message with the votes of each transaction in some order. -/
def BinaryForm (message : Message) (bytes : List UInt8) : Prop :=
  ∃ fields, message.Lists fields ∧ Wire.writeFields fields = bytes

end Message

theorem TransactionRecord.lists_fields (record : TransactionRecord) : record.Lists record.fields :=
  ⟨record.validators.entries, .refl _, rfl⟩

namespace Message

theorem lists_fields (message : Message) : message.Lists message.fields := by
  cases message with
  | mempoolResponse response =>
      exact List.forall₂_map_right_iff.mpr
        (List.forall₂_same.mpr fun record _ => ⟨_, record.lists_fields, rfl⟩)
  | transactionRecord record => exact record.lists_fields
  | _ => rfl

/-- Ascending order of the addresses is one order of the votes. -/
theorem binaryForm_encode (message : Message) : message.BinaryForm message.encode :=
  ⟨message.fields, message.lists_fields, rfl⟩

end Message

/-! ### The message that its fields make -/

theorem TransactionRecord.Lists.foldl_absorb {record : TransactionRecord} {fields : List Field}
    (h : record.Lists fields) (earlier : TransactionRecord) :
    fields.foldl absorb earlier = earlier.merge record := by
  obtain ⟨votes, hvotes, rfl⟩ := h
  exact foldl_absorb_fieldsWith hvotes earlier

theorem MempoolResponse.filterMap_record? {records : List TransactionRecord} {fields : List Field}
    (h : List.Forall₂ TransactionRecord.ListedAs records fields) :
    fields.filterMap MempoolResponse.record? = records := by
  induction h with
  | nil => rfl
  | cons hfield _ ih =>
      obtain ⟨own, hown, rfl⟩ := hfield
      rw [List.filterMap_cons, ih, record?, hown.foldl_absorb, TransactionRecord.merge_empty]

/-- The fields of a message make the message, whatever the order of its votes. -/
theorem Message.Lists.ofFields_eq {message : Message} {fields : List Field}
    (h : message.Lists fields) : ofFields message.type fields = message := by
  cases message with
  | nodeTypeRequest => rfl
  | mempoolRequest => rfl
  | nodeTypeResponse response =>
      obtain rfl : fields = response.fields := h
      simp only [type, ofFields, NodeTypeResponse.foldl_absorb_fields,
        NodeTypeResponse.merge_empty]
  | token token =>
      obtain rfl : fields = token.fields := h
      simp only [type, ofFields, Token.foldl_absorb_fields, Token.merge_empty]
  | transactionRecord record =>
      have hrecord : record.Lists fields := h
      simp only [type, ofFields, hrecord.foldl_absorb, TransactionRecord.merge_empty]
  | mempoolResponse response =>
      simp only [type, ofFields, MempoolResponse.filterMap_record? h]

/-! ### The fields of a message fit its type -/

/-- A field that is left out at its default fits if it does where it is there. -/
theorem fieldsFit_unless {budget : Nat} {type : MessageType} {isDefault : Prop}
    [Decidable isDefault] {field : Field} (h : field.Fits budget type) :
    FieldsFit budget type (if isDefault then [] else [field]) := by
  split
  · trivial
  · exact ⟨h, trivial⟩

theorem Token.fieldsFit_fields (token : Token) (budget : Nat) :
    FieldsFit budget .token token.fields := by
  simp only [Token.fields, Wire.fieldsFit_append]
  exact ⟨⟨fieldsFit_unless rfl, fieldsFit_unless rfl⟩, fieldsFit_unless rfl⟩

theorem TransactionRecord.Lists.fieldsFit {record : TransactionRecord} {fields : List Field}
    (h : record.Lists fields) (budget : Nat) :
    FieldsFit (budget + 1) .transactionRecord fields := by
  obtain ⟨votes, -, rfl⟩ := h
  have htoken : FieldsFit (budget + 1) .transactionRecord
      (record.token.toList.map fun token => Field.message 6 token.fields) := by
    rw [Wire.fieldsFit_iff]
    simp only [List.mem_map]
    rintro _ ⟨token, -, rfl⟩
    exact ⟨.token, .inl rfl, Nat.succ_pos _, token.fieldsFit_fields _⟩
  have hvotes : FieldsFit (budget + 1) .transactionRecord
      (votes.map fun vote => Field.entry 9 vote.1 vote.2) := by
    rw [Wire.fieldsFit_iff]
    simp only [List.mem_map]
    rintro _ ⟨vote, -, rfl⟩
    exact ⟨rfl, Nat.succ_pos _⟩
  simp only [TransactionRecord.fieldsWith, Wire.fieldsFit_append, and_assoc]
  exact ⟨fieldsFit_unless rfl, fieldsFit_unless rfl, fieldsFit_unless rfl, fieldsFit_unless rfl,
    fieldsFit_unless rfl, htoken, fieldsFit_unless rfl, fieldsFit_unless rfl, hvotes,
    fieldsFit_unless rfl⟩

theorem MempoolResponse.fieldsFit {records : List TransactionRecord} {fields : List Field}
    (h : List.Forall₂ TransactionRecord.ListedAs records fields) :
    FieldsFit Wire.nestingBudget .mempoolResponse fields := by
  induction h with
  | nil => trivial
  | cons hfield _ ih =>
      obtain ⟨own, hown, rfl⟩ := hfield
      exact ⟨⟨.transactionRecord, .inr rfl, by decide, hown.fieldsFit _⟩, ih⟩

/-- A message, its transactions and their tokens nest two deep, far within the budget. -/
theorem Message.Lists.fieldsFit {message : Message} {fields : List Field}
    (h : message.Lists fields) : FieldsFit Wire.nestingBudget message.type fields := by
  cases message with
  | nodeTypeRequest | mempoolRequest =>
      obtain rfl : fields = [] := h
      trivial
  | nodeTypeResponse response =>
      obtain rfl : fields = response.fields := h
      simp only [NodeTypeResponse.fields, Wire.fieldsFit_append]
      exact ⟨fieldsFit_unless rfl, fieldsFit_unless rfl⟩
  | token token =>
      obtain rfl : fields = token.fields := h
      exact token.fieldsFit_fields _
  | transactionRecord record => exact TransactionRecord.Lists.fieldsFit h _
  | mempoolResponse response => exact MempoolResponse.fieldsFit h

/-! ### Sizes -/

theorem Wire.sizeFields_eq_of_perm {as bs : List Field} (h : as.Perm bs) :
    sizeFields as = sizeFields bs := by
  induction h with
  | nil => rfl
  | cons field _ ih => simp only [sizeFields, ih]
  | swap a b fields =>
      simp only [sizeFields]
      omega
  | trans _ _ ih ih' => exact ih.trans ih'

theorem TransactionRecord.Lists.sizeFields_eq {record : TransactionRecord} {fields : List Field}
    (h : record.Lists fields) : Wire.sizeFields fields = Wire.sizeFields record.fields := by
  obtain ⟨votes, hvotes, rfl⟩ := h
  have hentries : ∀ field : String × Bool → Field, Wire.sizeFields (votes.map field)
      = Wire.sizeFields (record.validators.entries.map field) :=
    fun field => Wire.sizeFields_eq_of_perm (hvotes.map field)
  simp only [TransactionRecord.fields, TransactionRecord.fieldsWith, Wire.sizeFields_append,
    hentries]

theorem MempoolResponse.sizeFields_eq {records : List TransactionRecord} {fields : List Field}
    (h : List.Forall₂ TransactionRecord.ListedAs records fields) :
    Wire.sizeFields fields
      = Wire.sizeFields (records.map fun record => .message 1 record.fields) := by
  induction h with
  | nil => rfl
  | cons hfield _ ih =>
      obtain ⟨own, hown, rfl⟩ := hfield
      simp only [List.map_cons, Wire.sizeFields, Wire.Field.size, hown.sizeFields_eq, ih]

/-- The order of the votes has no part in the size. -/
theorem Message.Lists.sizeFields_eq {message : Message} {fields : List Field}
    (h : message.Lists fields) : Wire.sizeFields fields = message.encodedSize := by
  cases message with
  | mempoolResponse response => exact MempoolResponse.sizeFields_eq h
  | transactionRecord record => exact TransactionRecord.Lists.sizeFields_eq h
  | _ =>
      obtain rfl := h
      rfl

theorem Message.BinaryForm.length_eq {message : Message} {bytes : List UInt8}
    (h : message.BinaryForm bytes) : bytes.length = message.encodedSize := by
  obtain ⟨fields, hfields, rfl⟩ := h
  rw [Wire.length_writeFields, hfields.sizeFields_eq]

/-! ### Reading back -/

namespace Message

theorem decode_eq_ok {type : MessageType} {bytes : List UInt8} {limit : Nat} {message : Message}
    (h : decode type bytes limit = .ok message) :
    bytes.length ≤ limit ∧ ∃ fields, Wire.readFields type bytes = .ok fields
      ∧ message = ofFields type fields := by
  unfold decode at h
  split at h
  · cases h
  · rename_i hlimit
    split at h
    · cases h
    · rename_i fields hread
      cases h
      exact ⟨Nat.le_of_not_lt hlimit, fields, hread, rfl⟩

/-- That some bytes are a given message is settled by running the decoder: messages can be
compared, while what is wrong with bytes plays no part in it. -/
theorem decode_eq_ok_of_toOption {type : MessageType} {bytes : List UInt8} {limit : Nat}
    {message : Message} (h : (decode type bytes limit).toOption = some message) :
    decode type bytes limit = .ok message := by
  cases hread : decode type bytes limit with
  | error error =>
      rw [hread] at h
      cases h
  | ok found =>
      rw [hread] at h
      cases h
      rfl

/-- The fields in a binary form make the message. Lengths are below 2^64, as far as reading
goes. -/
theorem BinaryForm.readFields {message : Message} {bytes : List UInt8}
    (h : message.BinaryForm bytes) (hsize : bytes.length < 2 ^ 64) :
    ∃ fields, Wire.readFields message.type bytes = .ok fields
      ∧ ofFields message.type fields = message := by
  obtain ⟨fields, hfields, rfl⟩ := h
  rw [Wire.length_writeFields] at hsize
  exact ⟨fields, Wire.readFields_writeFields hfields.fieldsFit hsize, hfields.ofFields_eq⟩

/-- A binary form of a message is read as the message, whatever the order of its votes, if it is
no longer than the limit, and is refused with its size if it is longer. -/
theorem decode_binaryForm {message : Message} {bytes : List UInt8}
    (h : message.BinaryForm bytes) (limit : UInt64) :
    decode message.type bytes limit.toNat
      = if bytes.length ≤ limit.toNat then .ok message
        else .error (.tooLarge bytes.length limit.toNat) := by
  by_cases hlimit : bytes.length ≤ limit.toNat
  · obtain ⟨fields, hread, hmessage⟩ :=
      h.readFields (Nat.lt_of_le_of_lt hlimit limit.toNat_lt)
    simp only [hlimit, if_true, decode, Nat.not_lt.mpr hlimit, if_false, hread, hmessage]
  · rw [if_neg hlimit, decode, if_pos (Nat.lt_of_not_le hlimit)]

/-- An empty token, a refusal, an empty address and a time before the epoch all survive, here
with the votes written in descending order of their addresses. -/
theorem decode_binaryForm_descending :
    let record : TransactionRecord :=
      { timestamp := -1, token := some {}, validators := .ofList [("", false), ("a", true)] }
    let bytes := Wire.writeFields (record.fieldsWith [("a", true), ("", false)])
    (Message.transactionRecord record).BinaryForm bytes ∧ bytes.length = 22
      ∧ decode .transactionRecord bytes 22 = .ok (.transactionRecord record)
      ∧ decode .transactionRecord bytes 21 = .error (.tooLarge 22 21) := by
  intro record bytes
  have hform : (Message.transactionRecord record).BinaryForm bytes :=
    ⟨_, ⟨[("a", true), ("", false)], by decide, rfl⟩, rfl⟩
  have hlength : bytes.length = 22 := by
    rw [hform.length_eq]
    decide +kernel
  refine ⟨hform, hlength, ?_, ?_⟩
  · have hread := decode_binaryForm hform 22
    rw [hlength] at hread
    exact hread
  · have hread := decode_binaryForm hform 21
    rw [hlength] at hread
    exact hread

/-- Messages of one type that differ, such as a transaction with no token and the same one with
an empty token, share no binary form. -/
theorem BinaryForm.eq_of_type_eq {a b : Message} {bytes : List UInt8} (ha : a.BinaryForm bytes)
    (hb : b.BinaryForm bytes) (htype : a.type = b.type) (hsize : bytes.length < 2 ^ 64) :
    a = b := by
  obtain ⟨as, has, hmessage⟩ := ha.readFields hsize
  obtain ⟨bs, hbs, hother⟩ := hb.readFields hsize
  rw [htype, hbs] at has
  cases has
  rw [← hmessage, ← hother, htype]

end Message

end NodeView
