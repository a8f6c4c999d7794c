import Mathlib.Data.List.Sort
import NodeView.Proofs.Message.JsonVotes
import NodeView.Proofs.Text.ByteOrder
/-!
# NodeView.Proofs.Message.Approvals

The addresses that approved a transaction, however its votes were given.

Both forms come down to the last vote of each address (`Obtained.get?_eq`): for bytes that is the
last entry with the address, for JSON the last member under it in the last map. The approving
addresses are a matter of these alone (`approvingValidators_of_obtained`), and every transaction of
a message that is read is obtained like that (`exists_obtained`).
-/

namespace NodeView

open Message
open Wire (textBytes)

/-! ### Approving addresses of a map -/

namespace Validators

theorem mem_approving {map : Validators} {address : String} :
    address ∈ map.approving ↔ map.get? address = some true := by
  rw [get?, Keyed.lookup?_eq_some_iff_mem map.sorted.nodup_keys, approving]
  simp

theorem sorted_approving (map : Validators) : map.approving.Pairwise (· < ·) :=
  List.pairwise_map.mpr (map.sorted.filter _)

/-- From whatever order the entries come in, the addresses are brought into the same one. -/
theorem eq_approving_of_perm {map : Validators} {entries : List (String × Bool)}
    {addresses : List String} (hentries : entries.Perm map.entries)
    (haddresses : addresses.Perm ((entries.filter (·.2)).map (·.1)))
    (hsorted : addresses.Pairwise fun a b => textBytes a ≤ textBytes b) :
    addresses = map.approving := by
  have hperm : addresses.Perm map.approving := haddresses.trans ((hentries.filter _).map _)
  simp only [← Wire.le_iff_textBytes] at hsorted
  exact hperm.eq_of_pairwise' hsorted (map.sorted_approving.imp le_of_lt)

end Validators

/-! ### Transactions with their last votes -/

/-- A transaction of a message that is read, and the vote that is given last for each address. -/
inductive Obtained : TransactionRecord → (String → Option Bool) → Prop where
  | bytes {bytes body : List UInt8} {limit budget : Nat} {message : Message}
      {record : TransactionRecord} {votes : List (String × Bool)}
      (hread : decode message.type bytes limit = .ok message)
      (hrecord : InBytes bytes message budget body record) (hvotes : Casts budget body votes) :
      Obtained record fun address => Keyed.lookup? address votes.reverse
  | value {document : Json} {message : Message} {policy : KeyPolicy}
      {members : List (String × Json)} {record : TransactionRecord}
      (hread : ofJson message.type policy document.sortKeys = .ok message)
      (hrecord : ReadFrom document message (.object members) record) :
      Obtained record (lastVote members)
  | text {text : String} {document : Json} {message : Message} {policy : KeyPolicy}
      {members : List (String × Json)} {record : TransactionRecord}
      (hspells : Json.SpellsOut text document)
      (hread : ofJsonText message.type policy text = .ok message)
      (hrecord : ReadFrom document message (.object members) record) :
      Obtained record (lastVote members)

/-- **A transaction has the votes that are given last.** -/
theorem Obtained.get?_eq {record : TransactionRecord} {last : String → Option Bool}
    (h : Obtained record last) (address : String) :
    record.validators.get? address = last address := by
  cases h with
  | bytes hread hrecord hvotes =>
      obtain ⟨fields, run, rfl⟩ := exists_run_of_inBytes hrecord hread
      rw [TransactionRecord.validators_foldl_absorb, hvotes.votesOf_eq run,
        Validators.get?_foldl_insert]
      exact Option.or_none
  | value hread hrecord =>
      obtain ⟨fields, hfields, rfl⟩ := hrecord.exists_fields (ofJson_ok hread)
      exact get?_eq_lastVote hfields address
  | text hspells hread hrecord =>
      rw [ofJsonText_eq_of_spellsOut hspells] at hread
      obtain ⟨fields, hfields, rfl⟩ := hrecord.exists_fields (ofJson_ok hread)
      exact get?_eq_lastVote hfields address

/-- Every transaction of a message that is read has some votes given last. -/
theorem exists_obtained {type : MessageType} {message : Message} {record : TransactionRecord}
    (hrecord : record ∈ message.records) :
    (∀ bytes limit, decode type bytes limit = .ok message → ∃ last, Obtained record last)
      ∧ (∀ policy (document : Json), ofJson type policy document.sortKeys = .ok message →
        ∃ last, Obtained record last)
      ∧ ∀ policy text, ofJsonText type policy text = .ok message →
        ∃ last, Obtained record last := by
  have hvalue (policy : KeyPolicy) (document : Json)
      (hread : ofJson type policy document.sortKeys = .ok message) :
      ∃ last, Obtained record last := by
    obtain rfl := type_of_ofJson hread
    obtain ⟨members, hmembers⟩ := exists_readFrom (ofJson_ok hread) hrecord
    exact ⟨_, .value hread hmembers⟩
  refine ⟨fun bytes limit hread => ?_, hvalue, fun policy text hread => ?_⟩
  · obtain rfl : message.type = type := by
      obtain ⟨-, fields, -, rfl⟩ := decode_eq_ok hread
      exact type_ofFields type fields
    obtain ⟨budget, body, hbody⟩ := exists_inBytes hread hrecord
    obtain ⟨fields, run, -⟩ := exists_run_of_inBytes hbody hread
    obtain ⟨votes, hvotes⟩ := exists_casts run
    exact ⟨_, .bytes hread hbody hvotes⟩
  · cases hparse : Json.parse text with
    | error fault => simp [ofJsonText, hparse] at hread
    | ok value =>
        obtain ⟨document, hspells, rfl⟩ := Json.exists_document_of_parse hparse
        rw [ofJsonText_eq_of_spellsOut hspells] at hread
        exact hvalue policy document hread

/-- **The approving addresses are those whose last vote is an approval, in the order of their
bytes.** Each is there once, so they are no more than the addresses that voted. They are what
sorting makes of the entries, whatever order these come in, and inputs with the same last votes
give the same addresses. -/
theorem approvingValidators_of_obtained {record : TransactionRecord} {last : String → Option Bool}
    (h : Obtained record last) :
    (∀ address, address ∈ record.approvingValidators ↔ last address = some true)
      ∧ (record.approvingValidators.Pairwise fun a b => textBytes a < textBytes b)
      ∧ record.approvingValidators.length ≤ record.validators.size
      ∧ (∀ (entries : List (String × Bool)) (addresses : List String),
        entries.Perm record.validators.entries → addresses.Perm ((entries.filter (·.2)).map (·.1)) →
        (addresses.Pairwise fun a b => textBytes a ≤ textBytes b) →
        addresses = record.approvingValidators)
      ∧ ∀ other last', Obtained other last' → (∀ address, last' address = last address) →
        other.approvingValidators = record.approvingValidators := by
  refine ⟨fun address => ?_, ?_, record.validators.length_approving_le,
    fun entries addresses => Validators.eq_approving_of_perm, fun other last' hother hsame => ?_⟩
  · rw [← h.get?_eq]
    exact Validators.mem_approving
  · simp only [← Wire.lt_iff_textBytes]
    exact record.validators.sorted_approving
  · have hvotes : other.validators = record.validators := by
      ext1 address
      rw [hother.get?_eq, h.get?_eq, hsame]
    rw [TransactionRecord.approvingValidators, hvotes, TransactionRecord.approvingValidators]

/-- Members in which an address votes twice, and entries of which one has no flag and one no
address. -/
theorem approvingValidators_of_obtained_both :
    let members : List (String × Json) := [("validators", .object
      [("b", .bool true), ("ä", .bool true), ("", .bool true), ("b", .bool false)])]
    let bytes : List UInt8 :=
      [0x4a, 0x02, 0x10, 0x01, 0x4a, 0x03, 0x0a, 0x01, 0x62,
        0x4a, 0x06, 0x0a, 0x02, 0xc3, 0xa4, 0x10, 0x01]
    let record : TransactionRecord :=
      { validators := .ofList [("ä", true), ("b", false), ("", true)] }
    Obtained record (lastVote members)
      ∧ decode .transactionRecord bytes 17 = .ok (.transactionRecord record)
      ∧ (∀ address, address ∈ record.approvingValidators ↔ lastVote members address = some true)
      ∧ (record.approvingValidators.Pairwise fun a b => textBytes a < textBytes b)
      ∧ record.approvingValidators = ["", "ä"] := by
  intro members bytes record
  have hread : ofJson (transactionRecord record).type .strict (Json.object members).sortKeys
      = .ok (transactionRecord record) := rfl
  have h : Obtained record (lastVote members) := .value hread .itself
  obtain ⟨hmem, hsorted, -⟩ := approvingValidators_of_obtained h
  exact ⟨h, decode_eq_ok_of_toOption (by decide +kernel), hmem, hsorted, by decide +kernel⟩

end NodeView
