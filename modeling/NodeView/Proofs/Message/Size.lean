import NodeView.Proofs.Message.BinaryForm
import NodeView.Proofs.Wire.Minimal
/-!
# NodeView.Proofs.Message.Size

A message is written in no more bytes than it was read from.

A field that a message absorbs adds at most its own size to the message: what it replaces was
there before, a token is merged with the earlier one, and a vote takes the place of one of the
same address (`TransactionRecord.sizeFields_absorb_le` and the lemmas before it). Together with
what reading spends this bounds the size of a message by that of its binary form, canonical or
not (`Message.encodedSize_le_of_decode`), so a message that was read within a limit is read
within the limit again (`Message.BinaryForm.no_longer`).
-/

namespace NodeView

open Wire (Field sizeFields)

/-! ### Fields and their sizes -/

namespace Wire

theorem sizeFields_singleton (field : Field) : sizeFields [field] = field.size := rfl

theorem sizeFields_unless_le {isDefault : Prop} [Decidable isDefault] (field : Field) :
    sizeFields (if isDefault then [] else [field]) ≤ field.size := by
  split
  · exact Nat.zero_le _
  · exact Nat.le_of_eq (sizeFields_singleton field)

theorem size_message_le {fields others : List Field} (number : Nat)
    (h : sizeFields fields ≤ sizeFields others) :
    (Field.message number fields).size ≤ (Field.message number others).size :=
  Nat.add_le_add_left (delimitedSize_mono h) _

/-- Two messages merged into one have one key and one length less. -/
theorem size_message_merge_le {fields earlier later : List Field} (number : Nat)
    (h : sizeFields fields ≤ sizeFields earlier + sizeFields later) :
    (Field.message number fields).size
      ≤ (Field.message number earlier).size + (Field.message number later).size := by
  have hmerged := Nat.le_trans (delimitedSize_mono h) (delimitedSize_add_le _ _)
  simp only [Field.size]
  omega

/-- An entry replaces at most one entry of the same key. -/
theorem sizeFields_map_insert_le (field : String × Bool → Field) (key : String) (value : Bool)
    (entries : List (String × Bool)) :
    sizeFields ((Keyed.insert key value entries).map field)
      ≤ sizeFields (entries.map field) + (field (key, value)).size := by
  induction entries with
  | nil => exact Nat.le_of_eq (Nat.add_comm _ _)
  | cons head rest ih =>
      obtain ⟨k, v⟩ := head
      rw [Keyed.insert]
      split
      · simp only [List.map_cons, sizeFields]
        omega
      · split
        · simp only [List.map_cons, sizeFields]
          omega
        · simp only [List.map_cons, sizeFields]
          omega

end Wire

open Wire (sizeFields_unless_le sizeFields_append)

/-! ### One more field -/

theorem sizeFields_textField_le (number : Nat) (s : String) :
    sizeFields (textField number s) ≤ (Field.text number s).size :=
  sizeFields_unless_le _

theorem sizeFields_int64Field_le (number : Nat) (n : Int64) :
    sizeFields (int64Field number n) ≤ (Field.int64 number n).size :=
  sizeFields_unless_le _

theorem sizeFields_uint64Field_le (number : Nat) (n : UInt64) :
    sizeFields (uint64Field number n) ≤ (Field.uint64 number n).size :=
  sizeFields_unless_le _

theorem sizeFields_uint32Field_le (number : Nat) (n : UInt32) :
    sizeFields (uint32Field number n) ≤ (Field.uint32 number n).size :=
  sizeFields_unless_le _

theorem Token.sizeFields_absorb_le (token : Token) (field : Field) :
    sizeFields (token.absorb field).fields ≤ sizeFields token.fields + field.size := by
  unfold absorb
  split
  all_goals simp only [fields, sizeFields_append]
  · rename_i s
    have hname := sizeFields_textField_le 1 s
    omega
  · rename_i s
    have hsymbol := sizeFields_textField_le 2 s
    omega
  · rename_i n
    have hdecimals := sizeFields_uint32Field_le 3 n
    omega
  · exact Nat.le_add_right _ _

theorem Token.sizeFields_foldl_absorb_le (fields : List Field) (token : Token) :
    sizeFields (fields.foldl absorb token).fields
      ≤ sizeFields token.fields + sizeFields fields := by
  rw [← Wire.totalCost_size fields]
  exact Wire.foldl_size_le (fun token => sizeFields token.fields) Field.size
    sizeFields_absorb_le fields token

theorem NodeTypeResponse.sizeFields_absorb_le (response : NodeTypeResponse) (field : Field) :
    sizeFields (response.absorb field).fields ≤ sizeFields response.fields + field.size := by
  unfold absorb
  split
  all_goals simp only [fields, sizeFields_append]
  · rename_i s
    have hid := sizeFields_textField_le 1 s
    omega
  · rename_i s
    have hresult := sizeFields_textField_le 2 s
    omega
  · exact Nat.le_add_right _ _

/-- A token that is merged into an earlier one takes no more than the two of them. -/
theorem sizeFields_token_le (earlier : Option Token) (fields : List Field) :
    sizeFields ((some (fields.foldl Token.absorb (earlier.getD {}))).toList.map
        fun token => .message 6 token.fields)
      ≤ sizeFields (earlier.toList.map fun token => .message 6 token.fields)
        + (Field.message 6 fields).size := by
  have hmerged := Token.sizeFields_foldl_absorb_le fields (earlier.getD {})
  cases earlier with
  | none =>
      have hempty : sizeFields (Token.fields {}) = 0 := rfl
      rw [Option.getD_none, hempty, Nat.zero_add] at hmerged
      exact Nat.le_trans (Wire.size_message_le 6 hmerged) (Nat.le_add_left _ _)
  | some token => exact Wire.size_message_merge_le 6 hmerged

theorem TransactionRecord.sizeFields_absorb_le (record : TransactionRecord) (field : Field) :
    sizeFields (record.absorb field).fields ≤ sizeFields record.fields + field.size := by
  unfold absorb
  split
  all_goals simp only [fields, fieldsWith, sizeFields_append]
  · rename_i s
    have hid := sizeFields_textField_le 1 s
    omega
  · rename_i n
    have htimestamp := sizeFields_int64Field_le 2 n
    omega
  · rename_i s
    have hsenderAddress := sizeFields_textField_le 3 s
    omega
  · rename_i s
    have hsenderPublicKey := sizeFields_textField_le 4 s
    omega
  · rename_i s
    have hreceiverAddress := sizeFields_textField_le 5 s
    omega
  · rename_i inner
    have htoken := sizeFields_token_le record.token inner
    omega
  · rename_i n
    have hamount := sizeFields_uint64Field_le 7 n
    omega
  · rename_i s
    have hsignature := sizeFields_textField_le 8 s
    omega
  · rename_i address vote
    have hvotes := Wire.sizeFields_map_insert_le (fun vote => .entry 9 vote.1 vote.2) address vote
      record.validators.entries
    dsimp only [Validators.insert] at hvotes ⊢
    omega
  · rename_i n
    have hnonce := sizeFields_uint64Field_le 10 n
    omega
  · exact Nat.le_add_right _ _

theorem TransactionRecord.sizeFields_foldl_absorb_le (fields : List Field) :
    sizeFields (fields.foldl absorb {}).fields ≤ sizeFields fields := by
  have htotal := Wire.foldl_size_le (fun record : TransactionRecord => sizeFields record.fields)
    Field.size
    sizeFields_absorb_le fields {}
  have hempty : sizeFields (TransactionRecord.fields {}) = 0 := rfl
  rwa [hempty, Nat.zero_add, Wire.totalCost_size] at htotal

theorem MempoolResponse.sizeFields_filterMap_le (fields : List Field) :
    sizeFields ((fields.filterMap record?).map fun record => .message 1 record.fields)
      ≤ sizeFields fields := by
  induction fields with
  | nil => exact Nat.le_refl _
  | cons field fields ih =>
      rw [List.filterMap_cons]
      cases hrecord : record? field with
      | none => exact Nat.le_trans ih (Nat.le_add_left _ _)
      | some record =>
          unfold record? at hrecord
          split at hrecord
          · rename_i inner
            cases hrecord
            have hsize := Wire.size_message_le 1
              (TransactionRecord.sizeFields_foldl_absorb_le inner)
            exact Nat.add_le_add hsize ih
          · cases hrecord

/-! ### Messages -/

namespace Message

/-- The message that fields make is no larger than the fields. -/
theorem encodedSize_ofFields_le (type : MessageType) (fields : List Field) :
    (ofFields type fields).encodedSize ≤ sizeFields fields := by
  cases type with
  | nodeTypeRequest | mempoolRequest => exact Nat.zero_le _
  | nodeTypeResponse =>
      have htotal := Wire.foldl_size_le
        (fun response : NodeTypeResponse => sizeFields response.fields) Field.size
        NodeTypeResponse.sizeFields_absorb_le fields {}
      have hempty : sizeFields (NodeTypeResponse.fields {}) = 0 := rfl
      rwa [hempty, Nat.zero_add, Wire.totalCost_size] at htotal
  | mempoolResponse => exact MempoolResponse.sizeFields_filterMap_le fields
  | transactionRecord => exact TransactionRecord.sizeFields_foldl_absorb_le fields
  | token =>
      have htotal := Token.sizeFields_foldl_absorb_le fields {}
      have hempty : sizeFields (Token.fields {}) = 0 := rfl
      rwa [hempty, Nat.zero_add] at htotal

/-- **A message is written in no more bytes than it was read from.** -/
theorem encodedSize_le_of_decode {type : MessageType} {bytes : List UInt8} {limit : Nat}
    {message : Message} (h : decode type bytes limit = .ok message) :
    message.encodedSize ≤ bytes.length := by
  obtain ⟨-, fields, hread, rfl⟩ := decode_eq_ok h
  exact Nat.le_trans (encodedSize_ofFields_le type fields)
    (Wire.sizeFields_le_of_readFields hread)

/-- What was read within a limit is read again, within the same limit, from any of its binary
forms. -/
theorem BinaryForm.decode_of_decode {type : MessageType} {bytes form : List UInt8}
    {message : Message} (hform : message.BinaryForm form) (limit : UInt64)
    (h : decode type bytes limit.toNat = .ok message) :
    decode type form limit.toNat = .ok message := by
  have hsize := encodedSize_le_of_decode h
  obtain ⟨hlimit, fields, -, hmessage⟩ := decode_eq_ok h
  have htype : message.type = type := by rw [hmessage, type_ofFields]
  have hread := decode_binaryForm hform limit
  rwa [if_pos (hform.length_eq ▸ Nat.le_trans hsize hlimit), htype] at hread

/-- Writing a message again never takes more bytes than it was read from: each binary form of
what some bytes were read as, whatever the order of its votes, is no longer than these bytes, and
is read as the same message within the same limit. -/
theorem BinaryForm.no_longer {type : MessageType} {bytes form : List UInt8} {message : Message}
    {limit : UInt64} (h : decode type bytes limit.toNat = .ok message)
    (hform : message.BinaryForm form) :
    form.length ≤ bytes.length ∧ decode type form limit.toNat = .ok message := by
  have hsize := encodedSize_le_of_decode h
  exact ⟨hform.length_eq ▸ hsize, hform.decode_of_decode limit h⟩

/-- An identifier that is given twice, a time of zero, a token in three parts with a number that
is cut down, numbers with needless groups and an unknown field, written again with the votes in
descending order. -/
theorem BinaryForm.no_longer_descending :
    let record : TransactionRecord :=
      { id := "B", token := some { name := "X", symbol := "Y", decimals := 5 }, amount := 5,
        validators := .ofList [("a", true), ("b", true)] }
    let bytes : List UInt8 :=
      [0x0a, 0x01, 0x41, 0x0a, 0x01, 0x42, 0x10, 0x80, 0x00, 0x32, 0x03, 0x0a, 0x01, 0x58,
       0x32, 0x03, 0x12, 0x01, 0x59, 0x32, 0x06, 0x18, 0x85, 0x80, 0x80, 0x80, 0x10,
       0x4a, 0x05, 0x0a, 0x01, 0x61, 0x10, 0x01, 0x4a, 0x05, 0x0a, 0x01, 0x62, 0x10, 0x01,
       0x38, 0x85, 0x80, 0x00, 0x58, 0x07]
    let form := Wire.writeFields (record.fieldsWith [("b", true), ("a", true)])
    decode .transactionRecord bytes 47 = .ok (.transactionRecord record)
      ∧ (Message.transactionRecord record).BinaryForm form
      ∧ form.length ≤ 47
      ∧ decode .transactionRecord form 47 = .ok (.transactionRecord record) := by
  intro record bytes form
  have hread : decode .transactionRecord bytes 47 = .ok (.transactionRecord record) :=
    decode_eq_ok_of_toOption (by decide +kernel)
  have hform : (Message.transactionRecord record).BinaryForm form :=
    ⟨_, ⟨[("b", true), ("a", true)], by decide, rfl⟩, rfl⟩
  exact ⟨hread, hform, @BinaryForm.no_longer _ _ _ _ 47 hread hform⟩

end Message

end NodeView
