import NodeView.Proofs.Message.BinaryForm
/-!
# NodeView.Proofs.Message.Concatenation

Binary forms behind one another.

A byte string that is read as a message is a run of fields, and a run ends at the same place
whatever follows it (`Run.of_append`). So behind such a string another one is read exactly if it
is read alone, and its fields are absorbed by the message that is already there: where they write
a message, the result is that message merged into the earlier one (`Message.decode_append`).
-/

namespace NodeView

open Wire (Field)

namespace Message

/-- Bytes within the limit are a message exactly if they are a run of its fields. -/
theorem decode_eq_ok_iff_run {type : MessageType} {bytes : List UInt8} {limit : Nat}
    {message : Message} (hsize : bytes.length ≤ limit) :
    decode type bytes limit = .ok message ↔ ∃ fields,
      Wire.Run (Wire.readField Wire.nestingBudget type) bytes fields
        ∧ ofFields type fields = message := by
  rw [decode, if_neg (Nat.not_lt.mpr hsize)]
  constructor
  · intro h
    cases hread : Wire.readFields type bytes with
    | error fault => rw [hread] at h; cases h
    | ok fields =>
        rw [hread] at h
        exact ⟨fields, Wire.readFields_eq_ok_iff.mp hread, Except.ok.inj h⟩
  · rintro ⟨fields, run, rfl⟩
    rw [Wire.readFields_eq_ok_iff.mpr run]

/-- The fields of a message merge it into what earlier fields made. -/
theorem Lists.ofFields_append {message : Message} {fields : List Field} (h : message.Lists fields)
    (earlier : List Field) :
    ofFields message.type (earlier ++ fields) = (ofFields message.type earlier).merge message := by
  cases message with
  | nodeTypeRequest | mempoolRequest => rfl
  | nodeTypeResponse response =>
      obtain rfl : fields = response.fields := h
      simp only [type, ofFields, merge, List.foldl_append, NodeTypeResponse.foldl_absorb_fields]
  | mempoolResponse response =>
      simp only [type, ofFields, merge, MempoolResponse.merge, List.filterMap_append,
        MempoolResponse.filterMap_record? h]
  | transactionRecord record =>
      have hrecord : record.Lists fields := h
      simp only [type, ofFields, merge, List.foldl_append, hrecord.foldl_absorb]
  | token token =>
      obtain rfl : fields = token.fields := h
      simp only [type, ofFields, merge, List.foldl_append, Token.foldl_absorb_fields]

/-- Behind bytes that are read as a message, other bytes are accepted exactly if they are accepted
alone, as long as both together are within the limit. If they are a binary form of a second
message, its votes in any order, that message is merged into the first. -/
theorem decode_append {type : MessageType} {a b : List UInt8} {limit : UInt64} {first : Message}
    (ha : decode type a limit.toNat = .ok first)
    (hsize : a.length + b.length ≤ limit.toNat) :
    ((∃ message, decode type (a ++ b) limit.toNat = .ok message)
        ↔ ∃ message, decode type b limit.toNat = .ok message)
      ∧ ∀ second : Message, second.type = type → second.BinaryForm b →
          decode type (a ++ b) limit.toNat = .ok (first.merge second) := by
  have hboth : (a ++ b).length ≤ limit.toNat := by rwa [List.length_append]
  have hb : b.length ≤ limit.toNat := by omega
  obtain ⟨as, front, rfl⟩ := (decode_eq_ok_iff_run (by omega)).mp ha
  simp only [decode_eq_ok_iff_run hboth, decode_eq_ok_iff_run hb]
  refine ⟨⟨?_, ?_⟩, ?_⟩
  · rintro ⟨_, all, run, -⟩
    obtain ⟨bs, -, back⟩ := front.of_append run
    exact ⟨_, bs, back, rfl⟩
  · rintro ⟨_, bs, back, -⟩
    exact ⟨_, as ++ bs, front.append back, rfl⟩
  · rintro second rfl ⟨bs, hbs, rfl⟩
    rw [Wire.length_writeFields] at hb
    have back := hbs.fieldsFit.run_writeFields (Nat.lt_of_le_of_lt hb limit.toNat_lt)
    exact ⟨as ++ bs, front.append back, hbs.ofFields_append as⟩

/-- Two halves of a token come together, a vote is changed, and the time that the second
transaction leaves at zero is kept, here with its votes in descending order. -/
theorem decode_append_transactions :
    let first : TransactionRecord :=
      { id := "a", timestamp := -1, token := some { name := "Gold", decimals := 2 },
        validators := .ofList [("x", true), ("y", true)] }
    let second : TransactionRecord :=
      { id := "b", token := some { symbol := "GLD" },
        validators := .ofList [("x", false), ("z", true)] }
    let a := (transactionRecord first).encode
    let b := Wire.writeFields (second.fieldsWith [("z", true), ("x", false)])
    decode .transactionRecord a 100 = .ok (.transactionRecord first) ∧ a.length + b.length ≤ 100
      ∧ decode .transactionRecord (a ++ b) 100 = .ok (.transactionRecord
          { id := "b", timestamp := -1,
            token := some { name := "Gold", symbol := "GLD", decimals := 2 },
            validators := .ofList [("x", false), ("y", true), ("z", true)] }) := by
  intro first second a b
  have hform : (transactionRecord second).BinaryForm b :=
    ⟨_, ⟨[("z", true), ("x", false)], by decide, rfl⟩, rfl⟩
  have hlength : a.length + b.length ≤ 100 := by
    rw [(binaryForm_encode (transactionRecord first)).length_eq, hform.length_eq]
    decide +kernel
  have ha : decode .transactionRecord a 100 = .ok (.transactionRecord first) :=
    (decode_binaryForm (binaryForm_encode (transactionRecord first)) 100).trans
      (if_pos (Nat.le_trans (Nat.le_add_right _ _) hlength))
  exact ⟨ha, hlength, (@decode_append _ _ _ 100 _ ha hlength).2 _ rfl hform⟩

end Message

end NodeView
