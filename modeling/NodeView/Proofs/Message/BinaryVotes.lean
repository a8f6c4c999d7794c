import NodeView.Proofs.Message.LastWins
import NodeView.Proofs.Message.Rearrangement
import NodeView.Proofs.Wire.WireTypes
/-!
# NodeView.Proofs.Message.BinaryVotes

The votes that the bytes of a transaction cast.

An entry of the map casts one vote, in the order in which the entries stand: the last of its keys
and the last of its flags count, and a missing one is the empty text or no approval. No other field
casts any (`Casts`). A transaction is a message of its own or the body of a field of a response
(`InBytes`), and wherever it is, its fields cast what its bytes do (`Casts.votesOf_eq`,
`InBytes.exists_run`). Bytes that are read always cast some votes (`exists_casts`).
-/

namespace NodeView

open Wire (Field Run Takes WireType EntryField readEntryField readField readKey readNumber
  nestingBudget)

namespace Wire

/-! ### The parts of an entry -/

/-- The key that a part of an entry gives. -/
def EntryField.key? : EntryField → Option String
  | .key s => some s
  | _ => none

/-- The flag that a part of an entry gives. -/
def EntryField.flag? : EntryField → Option Bool
  | .flag b => some b
  | _ => none

/-- The last key of an entry, or the empty text. -/
def lastKey (parts : List EntryField) : String := (parts.filterMap EntryField.key?).getLastD ""

/-- The last flag of an entry, or no approval. -/
def lastFlag (parts : List EntryField) : Bool := (parts.filterMap EntryField.flag?).getLastD false

theorem foldl_absorbEntry (parts : List EntryField) (entry : String × Bool) :
    parts.foldl absorbEntry entry
      = ((parts.filterMap EntryField.key?).getLastD entry.1,
        (parts.filterMap EntryField.flag?).getLastD entry.2) := by
  induction parts generalizing entry with
  | nil => rfl
  | cons part parts ih =>
      rw [List.foldl_cons, ih]
      cases part <;>
        simp only [absorbEntry, List.filterMap_cons, EntryField.key?, EntryField.flag?,
          List.getLastD_cons]

theorem entryOfFields_eq (parts : List EntryField) :
    entryOfFields parts = (lastKey parts, lastFlag parts) := foldl_absorbEntry parts _

/-- An entry is read as the vote that its parts make. -/
theorem takes_readEntry_parts {budget : Nat} {length body : List UInt8} {parts : List EntryField}
    (hlength : Takes readNumber length body.length)
    (hparts : Run (readEntryField budget) body parts) :
    Takes (readEntry (budget + 1)) (length ++ body) (lastKey parts, lastFlag parts) := by
  have hentry := (hparts.takes_readDelimited hlength).map entryOfFields
  rwa [entryOfFields_eq] at hentry

theorem exists_parts_of_readEntry {budget : Nat} {input rest : Input} {entry : String × Bool}
    (h : readEntry (budget + 1) input = .ok (entry, rest)) :
    ∃ length body parts, input.bytes = length ++ body ++ rest.bytes
      ∧ Takes readNumber length body.length ∧ Run (readEntryField budget) body parts
      ∧ entry = (lastKey parts, lastFlag parts) := by
  obtain ⟨parts, hread, rfl⟩ := Read.map_eq_ok_iff.mp h
  obtain ⟨length, body, hbytes, hlength, hparts⟩ :=
    (readDelimited_eq_ok_iff (readEntryField_local budget)).mp hread
  exact ⟨length, body, parts, hbytes, hlength, hparts, entryOfFields_eq parts⟩

/-- A field that is read begins with a key, behind which the rest of it is read. -/
theorem exists_key_of_takes {budget : Nat} {type : MessageType} {bytes : List UInt8}
    {field : Field} (h : Takes (readField budget type) bytes field) :
    ∃ front back key, bytes = front ++ back ∧ Takes readKey front key
      ∧ fieldBehind budget (readNested budget) type key (.ofList back)
        = .ok (field, .ofList []) := by
  have hfield := h []
  rw [readField_eq, readFieldWith_eq_andThen, Read.andThen, List.append_nil] at hfield
  split at hfield
  · cases hfield
  · rename_i key rest hkey
    obtain ⟨front, hbytes, htakes⟩ := readKey_local hkey
    rw [← rest.ofList_bytes] at hfield
    exact ⟨front, rest.bytes, key, hbytes, htakes, hfield⟩

theorem number_of_takes {budget : Nat} {type : MessageType} {front back : List UInt8}
    {key : Key} {field : Field} (hkey : Takes readKey front key)
    (h : Takes (readField budget type) (front ++ back) field) : field.number = key.number := by
  have hfield := h []
  rw [readField_eq, readFieldWith_eq_andThen, Read.andThen, List.append_assoc, hkey] at hfield
  exact number_of_fieldBehind hfield

/-- A nested message that is read comes behind a length. -/
theorem wire_of_readValue {budget : Nat} {nested : MessageType → Read (List Field)}
    {spec : FieldSpec} {inner : MessageType} {wire : WireType} {input : Input}
    {result : Field × Input} (hkind : spec.kind = .message inner ∨ spec.kind = .repeated inner)
    (h : readValue budget nested spec wire input = .ok result) : wire = .delimited := by
  by_contra hne
  have hwire : spec.kind.wireType = .delimited := by
    rcases hkind with hkind | hkind <;> (rw [hkind]; rfl)
  have hflags : spec.kind ≠ .flags := by
    rcases hkind with hkind | hkind <;> simp [hkind]
  rw [readValue_of_ne hflags (hwire ▸ hne)] at h
  cases h

end Wire

/-! ### The votes of a transaction -/

/-- These are the votes that the bytes of a transaction cast, one for each entry of its map. The
parts of an entry may use up so much of the budget. -/
inductive Casts (budget : Nat) : List UInt8 → List (String × Bool) → Prop where
  | nil : Casts budget [] []
  | entry {key length body rest : List UInt8} {wire : WireType} {parts : List EntryField}
      {votes : List (String × Bool)} (hkey : Takes readKey key ⟨9, wire⟩)
      (hlength : Takes readNumber length body.length)
      (hparts : Run (readEntryField budget) body parts) (hrest : Casts budget rest votes) :
      Casts budget (key ++ (length ++ body) ++ rest)
        ((Wire.lastKey parts, Wire.lastFlag parts) :: votes)
  | other {key payload rest : List UInt8} {number : Nat} {wire : WireType} {field : Field}
      {votes : List (String × Bool)} (hkey : Takes readKey key ⟨number, wire⟩)
      (hnumber : number ≠ 9)
      (hfield : Takes (readField (budget + 1) .transactionRecord) (key ++ payload) field)
      (hrest : Casts budget rest votes) : Casts budget (key ++ payload ++ rest) votes

theorem field?_votes : MessageType.field? .transactionRecord 9
    = some ⟨9, "validators", "validators", .flags⟩ := rfl

/-- The fields of a transaction cast the votes that its bytes cast. -/
theorem Casts.votesOf_eq {budget : Nat} {body : List UInt8} {votes : List (String × Bool)}
    (h : Casts budget body votes) {fields : List Field}
    (run : Run (readField (budget + 1) .transactionRecord) body fields) :
    votesOf fields = votes := by
  induction h generalizing fields with
  | nil =>
      generalize hbytes : ([] : List UInt8) = bytes at run
      cases run with
      | nil => rfl
      | cons moves => exact absurd (List.append_eq_nil_iff.mp hbytes.symm).1 moves
  | @entry key length body rest wire parts votes hkey hlength hparts _ ih =>
      have hentry := Wire.takes_readEntry_parts hlength hparts
      have hfield := Wire.takes_readField_of_key hkey field?_votes
        (Wire.takes_readValue_of_flags rfl wire hentry)
      obtain ⟨others, rfl, hrest⟩ := run.of_takes_append hfield (Wire.readField_ne_nil hfield)
      rw [← ih hrest]
      rfl
  | other hkey hnumber hfield _ ih =>
      obtain ⟨others, rfl, hrest⟩ := run.of_takes_append hfield (Wire.readField_ne_nil hfield)
      have hother := hnumber ∘ (Wire.number_of_takes hkey hfield).symm.trans
      have hnone := Message.votesOf_eq_nil (List.forall_mem_singleton.mpr hother)
      rw [← ih hrest, ← List.singleton_append, votesOf_append, hnone, List.nil_append]

/-- The bytes of a transaction that is read cast some votes. -/
theorem exists_casts {budget : Nat} {body : List UInt8} {fields : List Field}
    (run : Run (readField (budget + 1) .transactionRecord) body fields) :
    ∃ votes, Casts budget body votes := by
  induction run with
  | nil => exact ⟨[], .nil⟩
  | cons _ takes _ ih =>
      obtain ⟨votes, hrest⟩ := ih
      obtain ⟨front, back, ⟨number, wire⟩, rfl, hkey, hbehind⟩ := Wire.exists_key_of_takes takes
      by_cases hnumber : number = 9
      · subst hnumber
        have hvalue := Wire.fieldBehind_eq_ok field?_votes hbehind
        rw [Wire.readValue_of_flags rfl] at hvalue
        obtain ⟨entry, hentry, -⟩ := Wire.Read.map_eq_ok_iff.mp hvalue
        obtain ⟨length, body, parts, hback, hlength, hparts, -⟩ :=
          Wire.exists_parts_of_readEntry hentry
        obtain rfl : back = length ++ body := by simpa using hback
        exact ⟨_, .entry hkey hlength hparts hrest⟩
      · exact ⟨votes, .other hkey hnumber takes hrest⟩

/-! ### The transactions of a message -/

/-- The transactions of a message. -/
def Message.records : Message → List TransactionRecord
  | .transactionRecord record => [record]
  | .mempoolResponse response => response.transactionRecords
  | _ => []

/-- A transaction of a message, and the bytes that it is read from, the parts of whose entries may
use up so much of the budget. -/
inductive InBytes : List UInt8 → Message → (budget : Nat) → List UInt8 → TransactionRecord → Prop
  where
  | itself {bytes : List UInt8} {record : TransactionRecord} :
      InBytes bytes (.transactionRecord record) (nestingBudget - 1) bytes record
  | element {front key length body back : List UInt8} {fields : List Field}
      {response : MempoolResponse} {record : TransactionRecord}
      (hfront : Run (readField nestingBudget .mempoolResponse) front fields)
      (hkey : Takes readKey key ⟨1, .delimited⟩) (hlength : Takes readNumber length body.length)
      (hrecord : response.transactionRecords[(fields.filterMap MempoolResponse.record?).length]?
        = some record) :
      InBytes (front ++ (key ++ (length ++ body ++ back))) (.mempoolResponse response)
        (nestingBudget - 2) body record

theorem field?_records : MessageType.field? .mempoolResponse 1
    = some ⟨1, "transaction_records", "transactionRecords", .repeated .transactionRecord⟩ := rfl

theorem number_of_record? {field : Field} {record : TransactionRecord}
    (h : MempoolResponse.record? field = some record) : field.number = 1 := by
  unfold MempoolResponse.record? at h
  split at h
  · rfl
  · cases h

namespace Message

variable {bytes body : List UInt8} {message : Message} {budget limit : Nat}
  {record : TransactionRecord}

/-- A transaction is what the fields in its bytes make. -/
theorem exists_run_of_inBytes (h : InBytes bytes message budget body record)
    (hread : decode message.type bytes limit = .ok message) :
    ∃ fields, Run (readField (budget + 1) .transactionRecord) body fields
      ∧ record = fields.foldl TransactionRecord.absorb {} := by
  obtain ⟨-, fields, hfields, hmessage⟩ := decode_eq_ok hread
  have run := Wire.readFields_eq_ok_iff.mp hfields
  cases h with
  | itself =>
      cases hmessage
      exact ⟨fields, run, rfl⟩
  | element hfront hkey hlength hrecord =>
      obtain ⟨_, rfl, behind⟩ := hfront.of_append run
      obtain ⟨field, others, after, rfl, hfield, -⟩ := behind.exists_fieldBehind hkey
      have hvalue := Wire.fieldBehind_eq_ok field?_records hfield
      obtain ⟨inside, hinside, rfl⟩ := Wire.exists_nested_of_readValue (.inr rfl) hvalue
      rw [List.append_assoc] at hinside
      obtain ⟨hbody, -⟩ := Wire.exists_run_take_of_readDelimited
        (Wire.readField_local (nestingBudget - 1) .transactionRecord) hlength hinside
      rw [List.take_left] at hbody
      cases hmessage
      refine ⟨inside, hbody, ?_⟩
      rw [List.filterMap_append, List.getElem?_append_right (Nat.le_refl _), Nat.sub_self]
        at hrecord
      exact (Option.some.inj hrecord).symm

/-- Every transaction of a run of fields is the body of one of them. -/
theorem exists_body_of_run {fields : List Field}
    (run : Run (readField nestingBudget .mempoolResponse) bytes fields)
    (hrecord : record ∈ fields.filterMap MempoolResponse.record?) :
    ∃ body, InBytes bytes (.mempoolResponse ⟨fields.filterMap MempoolResponse.record?⟩)
      (nestingBudget - 2) body record := by
  obtain ⟨field, hfield, hmine⟩ := List.mem_filterMap.mp hrecord
  obtain ⟨before, others, rfl⟩ := List.append_of_mem hfield
  obtain ⟨front, _, rfl, hfront, hback⟩ := run.exists_append
  cases hback with
  | @cons _ back _ _ _ takes _ =>
      obtain ⟨key, rest, ⟨number, wire⟩, rfl, hkey, hbehind⟩ := Wire.exists_key_of_takes takes
      obtain rfl : number = 1 :=
        (Wire.number_of_fieldBehind hbehind).symm.trans (number_of_record? hmine)
      have hvalue := Wire.fieldBehind_eq_ok field?_records hbehind
      obtain rfl : wire = .delimited := Wire.wire_of_readValue (.inr rfl) hvalue
      obtain ⟨inside, hinside, rfl⟩ := Wire.exists_nested_of_readValue (.inr rfl) hvalue
      obtain ⟨length, body, hrest, hlength, -⟩ := (Wire.readDelimited_eq_ok_iff
        (Wire.readField_local (nestingBudget - 1) .transactionRecord)).mp hinside
      obtain rfl : rest = length ++ body := by simpa using hrest
      refine ⟨body, ?_⟩
      rw [List.append_assoc key]
      refine .element hfront hkey hlength ?_
      rw [List.filterMap_append, List.getElem?_append_right (Nat.le_refl _), Nat.sub_self,
        List.filterMap_cons_some hmine]
      rfl

/-- Every transaction of a message that is read is in its bytes. -/
theorem exists_inBytes (hread : decode message.type bytes limit = .ok message)
    (hrecord : record ∈ message.records) :
    ∃ budget body, InBytes bytes message budget body record := by
  obtain ⟨-, fields, hfields, hmessage⟩ := decode_eq_ok hread
  have run := Wire.readFields_eq_ok_iff.mp hfields
  cases message with
  | transactionRecord own =>
      obtain rfl := List.mem_singleton.mp hrecord
      exact ⟨_, _, .itself⟩
  | mempoolResponse response =>
      cases hmessage
      exact ⟨_, exists_body_of_run run hrecord⟩
  | _ => cases hrecord

end Message

end NodeView
