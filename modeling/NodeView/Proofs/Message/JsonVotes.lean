import NodeView.Proofs.Message.BinaryVotes
import NodeView.Proofs.Message.NullMembers
import NodeView.Proofs.Message.UndeclaredMembers
/-!
# NodeView.Proofs.Message.JsonVotes

The votes that the members of a transaction list.

Of several maps the last one counts, and in it the last vote of each address, whatever was listed
before (`lastVote`). A transaction that is read has just these votes (`get?_eq_lastVote`): a map
that is `null` or missing casts none, and anything else than an object of truth values, among what
counts, is not read at all.
-/

namespace NodeView

open Wire (Field)

/-- The vote that a value is, if it is one. -/
def Json.vote? : Json → Option Bool
  | .bool vote => some vote
  | _ => none

theorem Json.vote?_sortKeys (value : Json) : value.sortKeys.vote? = value.vote? := by
  cases value <;> rfl

namespace Message

/-- The vote that the members of a transaction list last for an address: in their last map, the
last one under the address. -/
def lastVote (members : List (String × Json)) (address : String) : Option Bool :=
  match Keyed.lookup? "validators" members.reverse with
  | some (.object entries) => (Keyed.lookup? address entries.reverse).bind Json.vote?
  | _ => none

/-- In order, the members hold the last value of each key, itself in order. -/
theorem lookup?_sortedMembers (key : String) (members : List (String × Json)) :
    Keyed.lookup? key (Keyed.ofList (Json.sortMembers members))
      = (Keyed.lookup? key members.reverse).map Json.sortKeys := by
  rw [Keyed.lookup?_ofList, Json.sortMembers_eq_map, ← List.map_reverse, Keyed.lookup?_map]

/-- The entries of a map are read if they are truth values. -/
theorem exists_votes_of_entriesOfMembers {number : Nat} {entries : List (String × Json)}
    {fields : List Field} (h : entriesOfMembers number entries = .ok fields) :
    ∃ votes : List (String × Bool), entries = votes.map (fun vote => (vote.1, .bool vote.2))
      ∧ fields = votes.map fun vote => .entry number vote.1 vote.2 := by
  induction entries generalizing fields with
  | nil =>
      cases h
      exact ⟨[], rfl, rfl⟩
  | cons entry entries ih =>
      unfold entriesOfMembers at h
      split at h
      · rename_i heq
        cases heq
      · rename_i key flag others heq
        cases heq
        obtain ⟨more, hmore, rfl⟩ := exists_of_map_eq_ok h
        obtain ⟨votes, rfl, rfl⟩ := ih hmore
        exact ⟨(key, flag) :: votes, rfl, rfl⟩
      · cases h

theorem votesOf_entries (votes : List (String × Bool)) :
    votesOf (votes.map fun vote => .entry 9 vote.1 vote.2) = votes := by
  simp [votesOf, voteOf?, List.filterMap_map, Function.comp_def]

theorem fieldByKey?_validators : MessageType.fieldByKey? .transactionRecord "validators"
    = some ⟨9, "validators", "validators", .flags⟩ := rfl

/-- A key names a field with some number in one of the spellings of that field. -/
theorem eq_of_fieldByKey? {type : MessageType} {key : String} {spec own : FieldSpec}
    (hspec : type.fieldByKey? key = some spec) (hown : own ∈ type.fields)
    (hnumber : spec.number = own.number) :
    spec = own ∧ (key = own.jsonName ∨ key = own.name) := by
  obtain rfl := MessageType.eq_of_number_eq (List.mem_of_find?_eq_some hspec) hown hnumber
  exact ⟨rfl, by simpa [FieldSpec.matchesKey] using List.find?_some hspec⟩

section

variable {members : List (String × Json)} {fields : List Field}
  (h : fieldsOfMembers .transactionRecord [] (normalMembers .transactionRecord members)
    = .ok fields)

include h

/-- Without a map there are no votes. -/
theorem votesOf_eq_nil_of_null
    (hnull : ∀ value, ("validators", value) ∈ members → value.isNull = true) :
    votesOf fields = [] := by
  refine votesOf_eq_nil fun field hfield hnumber => ?_
  obtain ⟨normed, hnormed, spec, hspec, hsame⟩ := exists_member_of_fieldsOfMembers h field hfield
  obtain ⟨⟨key, value⟩, hmember, hkey, hvalue⟩ := exists_of_mem_normalMembers hnormed
  obtain ⟨-, hnames⟩ := eq_of_fieldByKey? hspec
    (List.mem_of_find?_eq_some fieldByKey?_validators) (hsame.symm.trans hnumber)
  obtain rfl : key = "validators" := hkey.trans (or_self_iff.mp hnames)
  exact Bool.false_ne_true (hvalue.symm.trans (hnull value hmember))

/-- A map that is read lists the votes. -/
theorem exists_votes_of_map {value : Json} (hmember : ("validators", value) ∈ members)
    (hnull : value.isNull = false) :
    ∃ votes, value = votesDocument votes ∧ votesOf fields = votes := by
  obtain ⟨-, front, mine, back, rfl, hmine, hfront, hback⟩ :=
    fieldsOfMembers_split h (mem_normalMembers hmember fieldByKey?_validators hnull)
      fieldByKey?_validators
  have hshape := admits_of_fieldsOfValue hmine
  cases value with
  | object entries =>
      obtain ⟨votes, rfl, rfl⟩ := exists_votes_of_entriesOfMembers hmine
      refine ⟨votes, rfl, ?_⟩
      rw [votesOf_append, votesOf_append, votesOf_eq_nil hfront, votesOf_eq_nil hback,
        List.nil_append, List.append_nil, votesOf_entries]
  | _ => cases hshape

end

/-- The votes that a map lists in order are the last ones that it lists in any order. -/
theorem lookup?_votes {entries : List (String × Json)} {votes : List (String × Bool)}
    (h : (Json.object entries).sortKeys = votesDocument votes) (address : String) :
    Keyed.lookup? address votes.reverse
      = (Keyed.lookup? address entries.reverse).bind Json.vote? := by
  have hentries : Keyed.ofList (Json.sortMembers entries)
      = votes.map fun vote => (vote.1, .bool vote.2) := Json.object.inj h
  have hsorted : Keyed.Sorted votes := by
    have hsorted := Keyed.sorted_ofList (Json.sortMembers entries)
    rwa [hentries, Keyed.Sorted, List.pairwise_map] at hsorted
  have hmap : (Keyed.lookup? address votes).map Json.bool
      = (Keyed.lookup? address entries.reverse).map Json.sortKeys := by
    rw [← lookup?_sortedMembers, hentries, Keyed.lookup?_map]
  have hvote := congrArg (·.bind Json.vote?) hmap
  simp only [Option.bind_map, Function.comp_def, Json.vote?_sortKeys] at hvote
  rw [hsorted.lookup?_reverse, ← hvote]
  cases Keyed.lookup? address votes <;> rfl

/-- **A transaction has the votes that its members list last.** -/
theorem get?_eq_lastVote {members : List (String × Json)} {fields : List Field}
    (h : fieldsOfJson .transactionRecord
      (normal .transactionRecord (Json.object members).sortKeys) = .ok fields)
    (address : String) :
    (fields.foldl TransactionRecord.absorb {}).validators.get? address
      = lastVote members address := by
  have hmem {value : Json} : ("validators", value) ∈ Keyed.ofList (Json.sortMembers members)
      ↔ (Keyed.lookup? "validators" members.reverse).map Json.sortKeys = some value := by
    rw [← lookup?_sortedMembers]
    exact (Keyed.lookup?_eq_some_iff_mem (Keyed.sorted_ofList _).nodup_keys).symm
  rw [TransactionRecord.validators_foldl_absorb, Validators.get?_foldl_insert, lastVote]
  refine Option.or_none.trans ?_
  cases hlast : Keyed.lookup? "validators" members.reverse with
  | none =>
      have hnil := votesOf_eq_nil_of_null h fun value hmember => by
        rw [hmem, hlast] at hmember
        cases hmember
      rw [hnil]
      rfl
  | some value =>
      have hmember := hmem.mpr (congrArg (Option.map Json.sortKeys) hlast)
      cases hnull : value.sortKeys.isNull with
      | true =>
          have hnil := votesOf_eq_nil_of_null h fun other hother => by
            rw [hmem, hlast] at hother
            cases hother
            exact hnull
          rw [hnil]
          cases value with
          | null => rfl
          | _ => cases hnull
      | false =>
          obtain ⟨votes, hvotes, hcast⟩ := exists_votes_of_map h hmember hnull
          rw [hcast]
          cases value with
          | object entries => exact lookup?_votes hvotes address
          | _ => cases hvotes

/-! ### The transactions of a message -/

theorem exists_members_of_fieldsOfJson {type : MessageType} {value : Json} {fields : List Field}
    (h : fieldsOfJson type (normal type value.sortKeys) = .ok fields) :
    ∃ members, value = .object members := by
  cases value with
  | object members => exact ⟨members, rfl⟩
  | _ => cases h

/-- The elements of a sequence that is read are its transactions, in their order. -/
theorem exists_item_of_record {items : List Json} {fields : List Field}
    (h : fieldsOfItems 1 .transactionRecord items = .ok fields) {index : Nat}
    {record : TransactionRecord}
    (hrecord : (fields.filterMap MempoolResponse.record?)[index]? = some record) :
    ∃ item inside, items[index]? = some item
      ∧ fieldsOfJson .transactionRecord item = .ok inside := by
  induction items generalizing fields index with
  | nil =>
      cases h
      cases hrecord
  | cons first items ih =>
      unfold fieldsOfItems at h
      split at h
      · cases h
      · rename_i inside hfirst
        split at h
        · cases h
        · rename_i others hmore
          cases h
          cases index with
          | zero => exact ⟨first, inside, rfl, hfirst⟩
          | succ index => exact ih hmore hrecord

theorem exists_item_of_array {items : List Json} {mine : List Field}
    (h : fieldsOfItems 1 .transactionRecord
      (normalItems .transactionRecord (Json.sortItems items)) = .ok mine) {index : Nat}
    {record : TransactionRecord}
    (hrecord : (mine.filterMap MempoolResponse.record?)[index]? = some record) :
    ∃ members, items[index]? = some (.object members) := by
  obtain ⟨normed, inside, hnormed, hinside⟩ := exists_item_of_record h hrecord
  rw [normalItems_eq_map, Json.sortItems_eq_map, List.getElem?_map, List.getElem?_map,
    Option.map_map, Option.map_eq_some_iff] at hnormed
  obtain ⟨item, hitem, rfl⟩ := hnormed
  obtain ⟨members, rfl⟩ := exists_members_of_fieldsOfJson hinside
  exact ⟨members, hitem⟩

/-- Every transaction of a message that is read is an object of the document. -/
theorem exists_readFrom {document : Json} {message : Message} {record : TransactionRecord}
    (hread : ofJsonLenient message.type document.sortKeys = .ok message)
    (hrecord : record ∈ message.records) :
    ∃ members, ReadFrom document message (.object members) record := by
  obtain ⟨fields, hfields, hmessage⟩ := ofJsonLenient_ok hread
  obtain ⟨members, rfl⟩ := exists_members_of_fieldsOfJson hfields
  cases message with
  | transactionRecord own =>
      obtain rfl := List.mem_singleton.mp hrecord
      exact ⟨members, .itself⟩
  | mempoolResponse response =>
      cases hmessage
      obtain ⟨field, hfield, hmine⟩ := List.mem_filterMap.mp hrecord
      obtain ⟨normed, hnormed, spec, hspec, hsame⟩ :=
        exists_member_of_fieldsOfMembers hfields field hfield
      obtain ⟨⟨key, value⟩, hmember, hkey, hvalue⟩ := exists_of_mem_normalMembers hnormed
      rw [← hkey] at hspec
      obtain ⟨rfl, hnames⟩ := eq_of_fieldByKey? hspec
        (List.mem_of_find?_eq_some (fieldByKey?_transactionRecords (.inl rfl)))
        (hsame.symm.trans (number_of_record? hmine))
      obtain ⟨-, front, mine, back, rfl, hvalues, hfront, hback⟩ :=
        fieldsOfMembers_split hfields (mem_normalMembers hmember hspec hvalue) hspec
      rw [← Keyed.lookup?_eq_some_iff_mem (Keyed.sorted_ofList _).nodup_keys,
        lookup?_sortedMembers, Option.map_eq_some_iff] at hmember
      obtain ⟨value, hlast, rfl⟩ := hmember
      have hshape := admits_of_fieldsOfValue hvalues
      cases value with
      | array items =>
          simp only [List.filterMap_append, filterMap_record?_eq_nil hfront,
            filterMap_record?_eq_nil hback, List.nil_append, List.append_nil] at hrecord ⊢
          obtain ⟨index, hindex⟩ := List.getElem?_of_mem hrecord
          obtain ⟨inside, hitem⟩ := exists_item_of_array hvalues hindex
          exact ⟨inside, .element hnames hlast hitem hindex⟩
      | _ => cases hshape
  | _ => cases hrecord

end Message

end NodeView
