import NodeView.Proofs.Json.Variant
import NodeView.Proofs.Message.JsonForm
import NodeView.Proofs.Message.Normal
/-!
# NodeView.Proofs.Message.LastWins

What reading a message from a text depends on.

A text is read as the document that it spells out with its keys in order, so nothing that
follows can tell variants apart. For the votes on a transaction this is said in full: an address
has the last vote that is listed for it. A record owes its votes to the fields for map entries
alone (`validators_foldl_absorb`), and of those there are as many as members under the one key of
the map (`votesOf_fieldsOfMembers`).
-/

namespace NodeView

open Wire (Field)

/-! ### Votes among fields -/

/-- The vote that a field of a transaction casts. -/
def voteOf? : Field → Option (String × Bool)
  | .entry 9 address vote => some (address, vote)
  | _ => none

/-- The votes that the fields of a transaction cast. -/
def votesOf (fields : List Field) : List (String × Bool) := fields.filterMap voteOf?

theorem votesOf_append (fields others : List Field) :
    votesOf (fields ++ others) = votesOf fields ++ votesOf others := List.filterMap_append

theorem TransactionRecord.validators_absorb (record : TransactionRecord) (field : Field) :
    (record.absorb field).validators
      = (voteOf? field).toList.foldl (fun map vote => map.insert vote.1 vote.2)
          record.validators := by
  unfold absorb voteOf?
  split <;> first | rfl | (split <;> simp_all)

/-- Only votes have a part in the votes on a transaction. -/
theorem TransactionRecord.validators_foldl_absorb (fields : List Field)
    (record : TransactionRecord) :
    (fields.foldl absorb record).validators
      = (votesOf fields).foldl (fun map vote => map.insert vote.1 vote.2) record.validators := by
  induction fields generalizing record with
  | nil => rfl
  | cons field fields ih =>
      rw [List.foldl_cons, ih, validators_absorb, votesOf, votesOf, List.filterMap_cons]
      cases voteOf? field <;> rfl

namespace Message

/-! ### Numbers of fields -/

theorem number_of_scalarOfJson {spec : FieldSpec} {value : Json} {fields : List Field}
    (h : scalarOfJson spec value = .ok fields) : ∀ field ∈ fields, field.number = spec.number := by
  have hmap : ∀ {α : Type} {outcome : Except DataFault α} {toField : α → Field},
      outcome.map (fun a => [toField a]) = .ok fields → (∀ a, (toField a).number = spec.number) →
      ∀ field ∈ fields, field.number = spec.number := by
    intro α outcome toField houtcome hnumber
    cases outcome with
    | error fault => cases houtcome
    | ok a =>
        cases houtcome
        exact List.forall_mem_singleton.mpr (hnumber a)
  unfold scalarOfJson at h
  split at h
  · split at h
    · cases h
      exact List.forall_mem_singleton.mpr rfl
    · cases h
  · exact hmap h fun _ => rfl
  · exact hmap h fun _ => rfl
  · exact hmap h fun _ => rfl
  · cases h
  · cases h
  · cases h

theorem number_of_entriesOfMembers {number : Nat} {members : List (String × Json)}
    {fields : List Field} (h : entriesOfMembers number members = .ok fields) :
    ∀ field ∈ fields, field.number = number := by
  induction members generalizing fields with
  | nil =>
      cases h
      exact List.forall_mem_nil _
  | cons member members ih =>
      unfold entriesOfMembers at h
      split at h
      · cases h
        exact nofun
      · rename_i key flag members heq
        cases heq
        cases hmore : entriesOfMembers number members with
        | error fault => simp [hmore, Except.map] at h
        | ok others =>
            rw [hmore] at h
            cases h
            exact List.forall_mem_cons.mpr ⟨rfl, ih hmore⟩
      · cases h

theorem number_of_fieldsOfItems {number : Nat} {type : MessageType} {items : List Json}
    {fields : List Field} (h : fieldsOfItems number type items = .ok fields) :
    ∀ field ∈ fields, field.number = number := by
  induction items generalizing fields with
  | nil =>
      cases h
      exact List.forall_mem_nil _
  | cons item items ih =>
      unfold fieldsOfItems at h
      split at h
      · cases h
      · split at h
        · cases h
        · rename_i others hmore
          cases h
          exact List.forall_mem_cons.mpr ⟨rfl, ih hmore⟩

/-- What is read as the value of a field has the number of the field. -/
theorem number_of_fieldsOfValue {spec : FieldSpec} {value : Json} {fields : List Field}
    (h : fieldsOfValue spec value = .ok fields) : ∀ field ∈ fields, field.number = spec.number := by
  unfold fieldsOfValue at h
  split at h
  · split at h
    · rename_i members _ inner _
      cases hmembers : fieldsOfMembers inner [] members with
      | error fault => simp [hmembers, Except.map] at h
      | ok others =>
          rw [hmembers] at h
          cases h
          exact List.forall_mem_singleton.mpr rfl
    · exact number_of_entriesOfMembers h
    · exact number_of_scalarOfJson h
  · split at h
    · exact number_of_fieldsOfItems h
    · exact number_of_scalarOfJson h
  · exact number_of_scalarOfJson h

/-- Only the field of the map casts votes. -/
theorem votesOf_eq_nil {fields : List Field} (h : ∀ field ∈ fields, field.number ≠ 9) :
    votesOf fields = [] := by
  refine List.filterMap_eq_nil_iff.mpr fun field hfield => ?_
  unfold voteOf?
  split
  · exact absurd rfl (h _ hfield)
  · rfl

/-! ### One member of a message -/

/-- Members are read one after the other: the first of them names no field, or it names one that
was not seen before. -/
theorem fieldsOfMembers_cons_ok {type : MessageType} {seen : List Nat} {key : String}
    {value : Json} {members : List (String × Json)} {fields : List Field}
    (h : fieldsOfMembers type seen ((key, value) :: members) = .ok fields) :
    (type.fieldByKey? key = none ∧ fieldsOfMembers type seen members = .ok fields)
      ∨ ∃ spec mine others, type.fieldByKey? key = some spec ∧ spec.number ∉ seen
        ∧ fieldsOfValue spec value = .ok mine
        ∧ fieldsOfMembers type (spec.number :: seen) members = .ok others
        ∧ fields = mine ++ others := by
  rw [fieldsOfMembers, MessageType.declaredFieldByKey?_eq] at h
  split at h
  · rename_i hnone
    exact .inl ⟨hnone, h⟩
  · rename_i spec hspec
    split at h
    · cases h
    · rename_i hseen
      split at h
      · cases h
      · rename_i mine hvalue
        split at h
        · cases h
        · rename_i others hmore
          cases h
          exact .inr ⟨spec, mine, others, hspec, hseen, hvalue, hmore, rfl⟩

/-- A field that was seen is not read again. -/
theorem number_not_mem_seen {type : MessageType} {seen : List Nat}
    {members : List (String × Json)} {fields : List Field}
    (h : fieldsOfMembers type seen members = .ok fields) :
    ∀ field ∈ fields, field.number ∉ seen := by
  induction members generalizing seen fields with
  | nil =>
      cases h
      exact List.forall_mem_nil _
  | cons member members ih =>
      rcases fieldsOfMembers_cons_ok h with ⟨-, hmore⟩ | ⟨spec, mine, others, -, hseen, hvalue,
        hmore, rfl⟩
      · exact ih hmore
      · intro field hfield
        rcases List.mem_append.mp hfield with hfield | hfield
        · rwa [number_of_fieldsOfValue hvalue field hfield]
        · exact fun hmem => ih hmore field hfield (List.mem_cons_of_mem _ hmem)

/-- The fields of a message that a member of it is read as, among the fields of other members. -/
theorem fieldsOfMembers_split {type : MessageType} {seen : List Nat}
    {members : List (String × Json)} {fields : List Field}
    (h : fieldsOfMembers type seen members = .ok fields) {key : String} {value : Json}
    {spec : FieldSpec} (hmember : (key, value) ∈ members)
    (hspec : type.fieldByKey? key = some spec) :
    spec.number ∉ seen ∧ ∃ front mine back, fields = front ++ (mine ++ back)
      ∧ fieldsOfValue spec value = .ok mine ∧ (∀ field ∈ front, field.number ≠ spec.number)
      ∧ ∀ field ∈ back, field.number ≠ spec.number := by
  induction members generalizing seen fields with
  | nil => cases hmember
  | cons member members ih =>
      rcases fieldsOfMembers_cons_ok h with ⟨hnone, hmore⟩ | ⟨other, mine, others, hother, hseen,
        hvalue, hmore, rfl⟩
      · rcases List.mem_cons.mp hmember with rfl | hmember
        · rw [hspec] at hnone
          cases hnone
        · exact ih hmore hmember
      · rcases List.mem_cons.mp hmember with rfl | hmember
        · -- The member itself: what is read behind it has seen its field.
          obtain rfl : other = spec := Option.some.inj (hother.symm.trans hspec)
          refine ⟨hseen, [], mine, others, rfl, hvalue, List.forall_mem_nil _, ?_⟩
          intro field hfield heq
          exact number_not_mem_seen hmore field hfield (heq ▸ List.mem_cons_self)
        · -- A member in front of it: its field differs, since the member's own was not seen.
          obtain ⟨hnew, front, own, back, rfl, hown, hfront, hback⟩ := ih hmore hmember
          have hne : other.number ≠ spec.number := fun heq => hnew (heq ▸ List.mem_cons_self)
          refine ⟨fun hmem => hnew (List.mem_cons_of_mem _ hmem), mine ++ front, own, back,
            by simp, hown, ?_, hback⟩
          intro field hfield
          rcases List.mem_append.mp hfield with hfield | hfield
          · rwa [number_of_fieldsOfValue hvalue field hfield]
          · exact hfront field hfield

/-- Of several members with one key, the last one is in the document in order. -/
theorem mem_sortMembers_of_last {members : List (String × Json)} {key : String} {value : Json}
    (h : Keyed.lookup? key members.reverse = some value) :
    (key, value.sortKeys) ∈ Keyed.ofList (Json.sortMembers members) := by
  rw [← Keyed.lookup?_eq_some_iff_mem (Keyed.sorted_ofList _).nodup_keys, Keyed.lookup?_ofList,
    Json.sortMembers_eq_map, ← List.map_reverse, Keyed.lookup?_map, h]
  rfl

/-! ### Votes of a transaction -/

/-- The document that lists some votes. -/
def votesDocument (votes : List (String × Bool)) : Json :=
  .object (votes.map fun (address, vote) => (address, .bool vote))

theorem sortKeys_votesDocument (votes : List (String × Bool)) :
    (votesDocument votes).sortKeys = votesDocument (Keyed.ofList votes) := by
  rw [votesDocument, Json.sortKeys, sortMembers_votes]
  exact congrArg Json.object (Keyed.ofList_map Json.bool votes)

/-- The fields that a transaction is read from cast the last votes that its document lists. -/
theorem get?_of_fieldsOfJson {members : List (String × Json)} {votes : List (String × Bool)}
    (hvotes : Keyed.lookup? "validators" members.reverse = some (votesDocument votes))
    {fields : List Field}
    (h : fieldsOfJson .transactionRecord
      (normal .transactionRecord (Json.object members).sortKeys) = .ok fields) (address : String) :
    (fields.foldl TransactionRecord.absorb {}).validators.get? address
      = Keyed.lookup? address votes.reverse := by
  have hspec : MessageType.fieldByKey? .transactionRecord "validators"
      = some ⟨9, "validators", "validators", .flags⟩ := rfl
  have hmember := mem_normalMembers (mem_sortMembers_of_last hvotes) hspec rfl
  rw [sortKeys_votesDocument] at hmember
  obtain ⟨-, front, mine, back, rfl, hmine, hfront, hback⟩ :=
    fieldsOfMembers_split h hmember hspec
  have hcast : votesOf (front ++ (mine ++ back)) = Keyed.ofList votes := by
    cases hmine.symm.trans (canonical_flags rfl (Keyed.ofList votes)).reads
    rw [votesOf_append, votesOf_append, votesOf_eq_nil hfront, votesOf_eq_nil hback]
    simp [votesOf, voteOf?, List.filterMap_map, Function.comp_def]
  rw [TransactionRecord.validators_foldl_absorb, hcast, Validators.get?_foldl_insert,
    (Keyed.sorted_ofList votes).lookup?_reverse, Keyed.lookup?_ofList]
  exact Option.or_none

/-! ### Transactions of a message -/

/-- A transaction of a message, and the part of the document that it is read from. -/
inductive ReadFrom : Json → Message → Json → TransactionRecord → Prop where
  | itself {document : Json} {record : TransactionRecord} :
      ReadFrom document (.transactionRecord record) document record
  | element {members : List (String × Json)} {response : MempoolResponse} {key : String}
      {items : List Json} {index : Nat} {item : Json} {record : TransactionRecord}
      (hkey : key = "transactionRecords" ∨ key = "transaction_records")
      (hitems : Keyed.lookup? key members.reverse = some (.array items))
      (hitem : items[index]? = some item)
      (hrecord : response.transactionRecords[index]? = some record) :
      ReadFrom (.object members) (.mempoolResponse response) item record

/-- The transactions of a sequence are read from its elements, in their order. -/
theorem exists_of_fieldsOfItems {items : List Json} {fields : List Field}
    (h : fieldsOfItems 1 .transactionRecord items = .ok fields) {index : Nat} {item : Json}
    (hitem : items[index]? = some item) :
    ∃ inside, fieldsOfJson .transactionRecord item = .ok inside
      ∧ (fields.filterMap MempoolResponse.record?)[index]?
        = some (inside.foldl TransactionRecord.absorb {}) := by
  induction items generalizing fields index with
  | nil => cases hitem
  | cons first items ih =>
      unfold fieldsOfItems at h
      split at h
      · cases h
      · rename_i inside hfirst
        split at h
        · cases h
        · rename_i others hmore
          cases h
          cases index with
          | zero =>
              cases hitem
              exact ⟨inside, hfirst, rfl⟩
          | succ index => exact ih hmore hitem

theorem filterMap_record?_eq_nil {fields : List Field} (h : ∀ field ∈ fields, field.number ≠ 1) :
    fields.filterMap MempoolResponse.record? = [] := by
  refine List.filterMap_eq_nil_iff.mpr fun field hfield => ?_
  unfold MempoolResponse.record?
  split
  · exact absurd rfl (h _ hfield)
  · rfl

/-- The spellings of the field for the transactions of a response. -/
theorem fieldByKey?_transactionRecords {key : String}
    (hkey : key = "transactionRecords" ∨ key = "transaction_records") :
    MessageType.fieldByKey? .mempoolResponse key
      = some ⟨1, "transaction_records", "transactionRecords", .repeated .transactionRecord⟩ := by
  rcases hkey with rfl | rfl <;> rfl

theorem ofJsonLenient_ok {type : MessageType} {value : Json} {message : Message}
    (h : ofJsonLenient type value = .ok message) :
    ∃ fields, fieldsOfJson type (normal type value) = .ok fields
      ∧ message = ofFields type fields := by
  unfold ofJsonLenient at h
  split at h
  · cases h
  · rename_i fields hfields
    cases h
    exact ⟨fields, hfields, rfl⟩

/-- Either policy reads what it does not refuse in the same way. -/
theorem ofJson_ok {type : MessageType} {policy : KeyPolicy} {value : Json} {message : Message}
    (h : ofJson type policy value = .ok message) : ofJsonLenient type value = .ok message := by
  cases policy with
  | lenient => exact h
  | strict =>
      unfold ofJson at h
      simp only at h
      split at h
      · cases h
      · exact h

theorem ReadFrom.exists_fields {document item : Json} {message : Message}
    {record : TransactionRecord} (h : ReadFrom document message item record)
    (hread : ofJsonLenient message.type document.sortKeys = .ok message) :
    ∃ fields, fieldsOfJson .transactionRecord (normal .transactionRecord item.sortKeys)
        = .ok fields ∧ record = fields.foldl TransactionRecord.absorb {} := by
  obtain ⟨fields, hfields, hmessage⟩ := ofJsonLenient_ok hread
  cases h with
  | itself =>
      cases hmessage
      exact ⟨fields, hfields, rfl⟩
  | @element _ _ _ items index item _ hkey hitems hitem hrecord =>
      have hspec := fieldByKey?_transactionRecords hkey
      have hmember := mem_normalMembers (mem_sortMembers_of_last hitems) hspec rfl
      obtain ⟨-, front, mine, back, rfl, hmine, hfront, hback⟩ :=
        fieldsOfMembers_split hfields hmember hspec
      cases hmessage
      simp only [List.filterMap_append, filterMap_record?_eq_nil hfront,
        filterMap_record?_eq_nil hback, List.nil_append, List.append_nil] at hrecord
      have hread : (normalItems .transactionRecord (Json.sortItems items))[index]?
          = some (normal .transactionRecord item.sortKeys) := by
        rw [normalItems_eq_map, Json.sortItems_eq_map]
        simp [hitem]
      obtain ⟨inside, hinside, hsame⟩ := exists_of_fieldsOfItems hmine hread
      rw [hsame] at hrecord
      exact ⟨inside, hinside, (Option.some.inj hrecord).symm⟩

/-! ### Texts -/

theorem type_of_ofJson {type : MessageType} {policy : KeyPolicy} {value : Json} {message : Message}
    (h : ofJson type policy value = .ok message) : message.type = type := by
  obtain ⟨fields, -, rfl⟩ := ofJsonLenient_ok (ofJson_ok h)
  exact type_ofFields type fields

theorem ofJsonText_eq_of_spellsOut {text : String} {document : Json}
    (h : Json.SpellsOut text document) (type : MessageType) (policy : KeyPolicy) :
    ofJsonText type policy text = ofJson type policy document.sortKeys := by
  rw [ofJsonText, h.parse_eq]

/-- A transaction has the last vote of each address that its part of the text lists. -/
theorem get?_of_ofJsonText {text : String} {document item : Json} {message : Message}
    {record : TransactionRecord} {policy : KeyPolicy} {members : List (String × Json)}
    {votes : List (String × Bool)} (h : Json.SpellsOut text document)
    (hread : ofJsonText message.type policy text = .ok message)
    (hrecord : ReadFrom document message item record) (hitem : item = .object members)
    (hvotes : Keyed.lookup? "validators" members.reverse = some (votesDocument votes))
    (address : String) :
    record.validators.get? address = Keyed.lookup? address votes.reverse := by
  rw [ofJsonText_eq_of_spellsOut h] at hread
  obtain ⟨fields, hfields, rfl⟩ := hrecord.exists_fields (ofJson_ok hread)
  rw [hitem] at hfields
  exact get?_of_fieldsOfJson hvotes hfields address

/-- Votes alone are read as a transaction, whatever addresses vote how often. -/
theorem ofJsonText_votes {text : String} {votes : List (String × Bool)}
    (h : Json.SpellsOut text (.object [("validators", votesDocument votes)]))
    (policy : KeyPolicy) :
    ∃ record, ofJsonText .transactionRecord policy text = .ok (.transactionRecord record) := by
  have hsorted : (Json.object [("validators", votesDocument votes)]).sortKeys
      = .object [("validators", votesDocument (Keyed.ofList votes))] := by
    rw [Json.sortKeys, Json.sortMembers, sortKeys_votesDocument]
    rfl
  have hflags : Canonical ⟨9, "validators", "validators", .flags⟩
      (votesDocument (Keyed.ofList votes)) _ := canonical_flags rfl _
  have hmembers : CanonicalMembers .transactionRecord
      [("validators", votesDocument (Keyed.ofList votes))] _ := .cons rfl hflags .nil
  rw [ofJsonText_eq_of_spellsOut h, hsorted, hmembers.ofJson (List.nodup_singleton _)]
  exact ⟨_, rfl⟩

/-- **Reading a message depends on the last-wins contents of the text only.** Every text that is
JSON spells out a document. Texts that spell out variants are read alike, as the same message or
with the same error; how they are laid out and how their strings are spelled does not enter into
the document. In every transaction that is read an address has the last vote that is listed for
it, and votes as such are always read. -/
theorem ofJsonText_lastWins (type : MessageType) (policy : KeyPolicy) :
    (∀ text value, Json.parse text = .ok value → ∃ document, Json.SpellsOut text document)
      ∧ (∀ text text' document document', Json.SpellsOut text document →
        Json.SpellsOut text' document' → Json.Variant document document' →
        ofJsonText type policy text = ofJsonText type policy text')
      ∧ (∀ text document message, Json.SpellsOut text document →
        ofJsonText type policy text = .ok message →
        ∀ item record members votes, ReadFrom document message item record →
          item = .object members →
          Keyed.lookup? "validators" members.reverse = some (votesDocument votes) →
          ∀ address, record.validators.get? address = Keyed.lookup? address votes.reverse)
      ∧ ∀ text votes, Json.SpellsOut text (.object [("validators", votesDocument votes)]) →
        ∃ record, ofJsonText .transactionRecord policy text = .ok (.transactionRecord record)
          ∧ ∀ address, record.validators.get? address = Keyed.lookup? address votes.reverse := by
  refine ⟨?_, ?_, ?_, ?_⟩
  · intro text value h
    obtain ⟨document, hdocument, -⟩ := Json.exists_document_of_parse h
    exact ⟨document, hdocument⟩
  · intro text text' document document' h h' hvariant
    rw [ofJsonText, ofJsonText, Json.parse_eq_of_variant h h' hvariant]
  · intro text document message h hread item record members votes hrecord hitem hvotes
    have htype : message.type = type := by
      rw [ofJsonText_eq_of_spellsOut h] at hread
      exact type_of_ofJson hread
    subst htype
    exact get?_of_ofJsonText h hread hrecord hitem hvotes
  · intro text votes h
    obtain ⟨record, hread⟩ := ofJsonText_votes h policy
    have htyped : ofJsonText (Message.transactionRecord record).type policy text
        = .ok (.transactionRecord record) := hread
    exact ⟨record, hread, get?_of_ofJsonText h htyped .itself rfl rfl⟩

/-- A member that is shadowed may hold what would be refused. -/
example :
    (ofJsonText .transactionRecord .strict
        "\x7b\"validators\":\x7b\"a\":1,\"b\":false,\"\\u0061\":true\x7d\x7d").toOption
      = some (.transactionRecord { validators := .ofList [("a", true), ("b", false)] }) := by
  decide +kernel

end Message

end NodeView
