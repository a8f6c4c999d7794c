import NodeView.Proofs.Message.Parts
import NodeView.Proofs.Message.Rearrangement
import NodeView.Proofs.Message.Retained
/-!
# NodeView.Proofs.Message.Respelling

The two spellings of a key.

A key may be respelled in any object that stands for a message, and since the members of an object
are in the order of their keys, its member may move to another place (`Respelled`). The same
members in another order are read as the same fields in another order (`ReadsAlike.of_perm`), and
no message can tell the difference: members that name one field twice are refused, so the fields
that change places have different numbers (`Interchangeable.swap`). A field that differs inside a
message is told apart by that message only, which carries the result from an object to all that it
is in (`Respelled.readsAlike`).
-/

namespace NodeView.Message

open Wire (Field)

/-! ### Another spelling -/

/-- A value with the key of one member, in one of its objects, in the other spelling of its field:
the member is the only one of its object that names the field, and the members of the object may be
in any order. -/
inductive Respelled : MessageType → Json → Json → Prop where
  | here {type : MessageType} {members others rest : List (String × Json)} {key key' : String}
      {found : Json} {spec : FieldSpec} (hkey : type.fieldByKey? key = some spec)
      (hkey' : type.fieldByKey? key' = some spec)
      (honly : ∀ member ∈ rest, type.fieldByKey? member.1 ≠ some spec)
      (hmembers : members.Perm ((key, found) :: rest))
      (hothers : others.Perm ((key', found) :: rest)) :
      Respelled type (.object members) (.object others)
  | token {front back : List (String × Json)} {value other : Json}
      (hvalue : Respelled .token value other) :
      Respelled .transactionRecord (.object (front ++ ("token", value) :: back))
        (.object (front ++ ("token", other) :: back))
  | record {front back : List (String × Json)} {key : String} {before after : List Json}
      {item other : Json} (hkey : key = "transactionRecords" ∨ key = "transaction_records")
      (hitem : Respelled .transactionRecord item other) :
      Respelled .mempoolResponse
        (.object (front ++ (key, .array (before ++ item :: after)) :: back))
        (.object (front ++ (key, .array (before ++ other :: after)) :: back))

namespace Respelled

variable {type : MessageType} {value other : Json}

theorem symm (h : Respelled type value other) : Respelled type other value := by
  induction h with
  | here hkey hkey' honly hmembers hothers => exact .here hkey' hkey honly hothers hmembers
  | token _ ih => exact .token ih
  | record hkey _ ih => exact .record hkey ih

theorem exists_objects (h : Respelled type value other) :
    ∃ members others, value = .object members ∧ other = .object others := by
  cases h <;> exact ⟨_, _, rfl, rfl⟩

/-- A key may be respelled in every object that stands for a message, if its member is the only one
that names its field. -/
theorem exists_of_objectAt {path : List Step} {inner : MessageType}
    {members others rest : List (String × Json)} {key key' : String} {found : Json}
    {spec : FieldSpec} (hobject : ObjectAt type value path inner members)
    (hkey : inner.fieldByKey? key = some spec) (hkey' : inner.fieldByKey? key' = some spec)
    (honly : ∀ member ∈ rest, inner.fieldByKey? member.1 ≠ some spec)
    (hmembers : members.Perm ((key, found) :: rest))
    (hothers : others.Perm ((key', found) :: rest)) :
    ∃ other, Respelled type value other ∧ ObjectAt type other path inner others := by
  induction hobject with
  | root => exact ⟨_, .here hkey hkey' honly hmembers hothers, .root⟩
  | token hmember _ ih =>
      obtain ⟨other, hother, hplace⟩ := ih hkey hkey' honly hmembers
      obtain ⟨front, back, rfl⟩ := List.append_of_mem hmember
      exact ⟨_, .token hother, .token (List.mem_append_right _ List.mem_cons_self) hplace⟩
  | @record _ _ _ items index item _ _ hname hmember hitem _ ih =>
      obtain ⟨other, hother, hplace⟩ := ih hkey hkey' honly hmembers
      obtain ⟨front, back, rfl⟩ := List.append_of_mem hmember
      obtain ⟨before, after, rfl, rfl⟩ : ∃ before after,
          items = before ++ item :: after ∧ before.length = index := by
        obtain ⟨hindex, rfl⟩ := List.getElem?_eq_some_iff.mp hitem
        refine ⟨items.take index, items.drop (index + 1), by simp, ?_⟩
        rw [List.length_take]
        omega
      have hfound : (before ++ other :: after)[before.length]? = some other := by simp
      exact ⟨_, .record hname hother,
        .record hname (List.mem_append_right _ List.mem_cons_self) hfound hplace⟩

end Respelled

/-! ### Fields that no message tells apart -/

/-- Whatever fields stand before and behind them, these make the same message. -/
def Interchangeable (type : MessageType) (fields others : List Field) : Prop :=
  ∀ front back,
    ofFields type (front ++ (fields ++ back)) = ofFields type (front ++ (others ++ back))

namespace Interchangeable

variable {type : MessageType} {fields others mine own : List Field}

theorem refl (type : MessageType) (fields : List Field) : Interchangeable type fields fields :=
  fun _ _ => rfl

theorem trans {more : List Field} (h : Interchangeable type fields others)
    (h' : Interchangeable type others more) : Interchangeable type fields more :=
  fun front back => (h front back).trans (h' front back)

theorem append (hmine : Interchangeable type mine own) (h : Interchangeable type fields others) :
    Interchangeable type (mine ++ fields) (own ++ others) := by
  intro front back
  have hfirst := hmine front (fields ++ back)
  have hsecond := h (front ++ own) back
  simp only [List.append_assoc] at hfirst hsecond ⊢
  exact hfirst.trans hsecond

theorem ofFields_eq (h : Interchangeable type fields others) :
    ofFields type fields = ofFields type others := by
  simpa using h [] []

/-- Fields with different numbers may change places. -/
theorem swap {n m : Nat} (hne : n ≠ m) (hmine : ∀ field ∈ mine, field.number = n)
    (hown : ∀ field ∈ own, field.number = m) :
    Interchangeable type (mine ++ own) (own ++ mine) := by
  intro front back
  refine ofFields_eq_of_rearranged ⟨?_, fun key => ?_⟩ type
  · exact (List.perm_append_comm.append_right back).append_left front
  · -- A slot is one of a single number, so one of the two has nothing in it.
    have hnone : mine.filter (·.slot = key) = [] ∨ own.filter (·.slot = key) = [] := by
      by_cases hkey : key.1 = n
      · refine .inr (List.filter_eq_nil_iff.mpr fun field hfield hslot => hne ?_)
        rw [← hkey, ← of_decide_eq_true hslot, Field.slot_fst, hown field hfield]
      · refine .inl (List.filter_eq_nil_iff.mpr fun field hfield hslot => hkey ?_)
        rw [← of_decide_eq_true hslot, Field.slot_fst, hmine field hfield]
    simp only [List.filter_append]
    rcases hnone with hnone | hnone <;> simp only [hnone, List.nil_append, List.append_nil]

/-- What no token tells apart, no transaction tells apart inside its token. -/
theorem token (h : Interchangeable .token fields others) :
    Interchangeable .transactionRecord [.message 6 fields] [.message 6 others] := by
  have hfold : ∀ earlier : Token,
      fields.foldl Token.absorb earlier = others.foldl Token.absorb earlier := by
    intro earlier
    -- What came before is what its own fields make.
    have hcontext := h earlier.fields []
    simp only [List.append_nil, ofFields, List.foldl_append, Token.foldl_absorb_fields,
      Token.merge_empty] at hcontext
    exact Message.token.inj hcontext
  intro front back
  simp only [ofFields, List.foldl_append, List.foldl_cons, List.singleton_append,
    TransactionRecord.absorb_message, hfold]

/-- What no transaction tells apart, no response tells apart inside a transaction. -/
theorem record (h : Interchangeable .transactionRecord fields others) :
    Interchangeable .mempoolResponse [.message 1 fields] [.message 1 others] := by
  have hfold := Message.transactionRecord.inj h.ofFields_eq
  intro front back
  simp only [ofFields, List.filterMap_append, List.filterMap_cons, List.filterMap_nil,
    MempoolResponse.record?, hfold]

end Interchangeable

/-! ### Members that are read alike -/

theorem fieldsOfMembers_cons_of_none {type : MessageType} {seen : List Nat} {key : String}
    (hnone : type.fieldByKey? key = none) (value : Json) (members : List (String × Json)) :
    fieldsOfMembers type seen ((key, value) :: members) = fieldsOfMembers type seen members := by
  simp only [fieldsOfMembers, MessageType.declaredFieldByKey?_eq, hnone]

theorem fieldsOfMembers_cons_of_some {type : MessageType} {seen : List Nat} {key : String}
    {value : Json} {members : List (String × Json)} {spec : FieldSpec} {mine others : List Field}
    (hspec : type.fieldByKey? key = some spec) (hseen : spec.number ∉ seen)
    (hmine : fieldsOfValue spec value = .ok mine)
    (hothers : fieldsOfMembers type (spec.number :: seen) members = .ok others) :
    fieldsOfMembers type seen ((key, value) :: members) = .ok (mine ++ others) := by
  simp only [fieldsOfMembers, MessageType.declaredFieldByKey?_eq, hspec, hseen, if_false, hmine,
    hothers]

/-- It does not matter in which order fields were seen. -/
theorem fieldsOfMembers_congr_seen {type : MessageType} {seen seen' : List Nat}
    (h : ∀ n, n ∈ seen ↔ n ∈ seen') (members : List (String × Json)) :
    fieldsOfMembers type seen members = fieldsOfMembers type seen' members := by
  induction members generalizing seen seen' with
  | nil => rfl
  | cons member members ih =>
      have hcons : ∀ n m, m ∈ n :: seen ↔ m ∈ n :: seen' := by simp [h]
      simp only [fieldsOfMembers, h, ih h, ih (hcons _)]

/-- Members that are read, whatever fields were seen before, as fields that no message tells from
those of others. -/
def ReadsAlike (type : MessageType) (members others : List (String × Json)) : Prop :=
  ∀ seen fields, fieldsOfMembers type seen members = .ok fields →
    ∃ fields', fieldsOfMembers type seen others = .ok fields' ∧ Interchangeable type fields fields'

namespace ReadsAlike

variable {type : MessageType} {members others : List (String × Json)}

theorem refl (type : MessageType) (members : List (String × Json)) :
    ReadsAlike type members members :=
  fun _ fields h => ⟨fields, h, .refl type fields⟩

theorem trans {more : List (String × Json)} (h : ReadsAlike type members others)
    (h' : ReadsAlike type others more) : ReadsAlike type members more := by
  intro seen fields hread
  obtain ⟨fields', hread', hsame⟩ := h seen fields hread
  obtain ⟨fields'', hread'', hsame'⟩ := h' seen fields' hread'
  exact ⟨fields'', hread'', hsame.trans hsame'⟩

/-- In front of members that are read alike, two members for one field whose values are. -/
theorem cons {key key' : String} {value value' : Json} (h : ReadsAlike type members others)
    (hkey : type.fieldByKey? key = type.fieldByKey? key')
    (hvalue : ∀ spec mine, type.fieldByKey? key = some spec → fieldsOfValue spec value = .ok mine →
      ∃ own, fieldsOfValue spec value' = .ok own ∧ Interchangeable type mine own) :
    ReadsAlike type ((key, value) :: members) ((key', value') :: others) := by
  intro seen fields hread
  rcases fieldsOfMembers_cons_ok hread with ⟨hnone, hmore⟩ | ⟨spec, mine, more, hspec, hseen, hmine,
    hmore, rfl⟩
  · obtain ⟨fields', hread', hsame⟩ := h seen fields hmore
    exact ⟨fields', (fieldsOfMembers_cons_of_none (hkey ▸ hnone) value' others).trans hread', hsame⟩
  · obtain ⟨own, hown, hsame⟩ := hvalue spec mine hspec hmine
    obtain ⟨fields', hread', hmoreSame⟩ := h _ more hmore
    exact ⟨own ++ fields', fieldsOfMembers_cons_of_some (hkey ▸ hspec) hseen hown hread',
      hsame.append hmoreSame⟩

theorem swap (type : MessageType) (first second : String × Json)
    (members : List (String × Json)) :
    ReadsAlike type (second :: first :: members) (first :: second :: members) := by
  intro seen fields hread
  rcases fieldsOfMembers_cons_ok hread with ⟨hnone, hmore⟩ | ⟨spec, mine, more, hspec, hseen, hmine,
    hmore, rfl⟩
  · -- The second names no field, so it is passed over on both sides.
    refine ⟨fields, ?_, .refl type fields⟩
    rcases fieldsOfMembers_cons_ok hmore with ⟨hnone', hrest⟩ | ⟨spec', own, rest, hspec', hseen',
      hown, hrest, rfl⟩
    · rw [fieldsOfMembers_cons_of_none hnone', fieldsOfMembers_cons_of_none hnone]
      exact hrest
    · exact fieldsOfMembers_cons_of_some hspec' hseen' hown
        ((fieldsOfMembers_cons_of_none hnone _ _).trans hrest)
  · rcases fieldsOfMembers_cons_ok hmore with ⟨hnone', hrest⟩ | ⟨spec', own, rest, hspec', hseen',
      hown, hrest, rfl⟩
    · refine ⟨mine ++ more, ?_, .refl type _⟩
      rw [fieldsOfMembers_cons_of_none hnone']
      exact fieldsOfMembers_cons_of_some hspec hseen hmine hrest
    · -- Both name a field, and the two differ, since the second was seen before the first.
      have hne : spec'.number ≠ spec.number := List.ne_of_not_mem_cons hseen'
      have hnew : spec'.number ∉ seen := List.not_mem_of_not_mem_cons hseen'
      have hmember : spec.number ∉ spec'.number :: seen :=
        List.not_mem_cons_of_ne_of_not_mem (Ne.symm hne) hseen
      have hseenSame : ∀ n, n ∈ spec'.number :: spec.number :: seen
          ↔ n ∈ spec.number :: spec'.number :: seen := by
        intro n
        simp only [List.mem_cons]
        exact or_left_comm
      have hrest' := (fieldsOfMembers_congr_seen hseenSame members).symm.trans hrest
      refine ⟨own ++ (mine ++ rest), fieldsOfMembers_cons_of_some hspec' hnew hown
        (fieldsOfMembers_cons_of_some hspec hmember hmine hrest'), ?_⟩
      have hswap : Interchangeable type (mine ++ own) (own ++ mine) :=
        .swap (Ne.symm hne) (number_of_fieldsOfValue hmine) (number_of_fieldsOfValue hown)
      simpa only [List.append_assoc] using hswap.append (.refl type rest)

/-- The order of members does not matter. -/
theorem of_perm (h : members.Perm others) : ReadsAlike type members others := by
  induction h with
  | nil => exact .refl type []
  | cons member _ ih => exact ih.cons rfl fun _ mine _ hmine => ⟨mine, hmine, .refl type mine⟩
  | swap first second members => exact .swap type first second members
  | trans _ _ ih ih' => exact ih.trans ih'

end ReadsAlike

/-! ### Respelled values are read alike -/

/-- An object with a member for the same field in the place of one, and its members in another
order. -/
theorem ReadsAlike.of_member {type : MessageType} {members others rest : List (String × Json)}
    {key key' : String} {value value' : Json} {spec : FieldSpec}
    (hmembers : members.Perm ((key, value) :: rest))
    (hothers : others.Perm ((key', value') :: rest))
    (hkey : type.fieldByKey? key = some spec) (hkey' : type.fieldByKey? key' = some spec)
    (hnull : value.isNull = value'.isNull)
    (hvalue : ∀ mine, fieldsOfValue spec (normalValue spec.kind value) = .ok mine →
      ∃ own, fieldsOfValue spec (normalValue spec.kind value') = .ok own
        ∧ Interchangeable type mine own) :
    ReadsAlike type (normalMembers type members) (normalMembers type others) := by
  have hown : ReadsAlike type (normalMembers type ((key, value) :: rest))
      (normalMembers type ((key', value') :: rest)) := by
    simp only [normalMembers, hkey, hkey', ← hnull]
    split
    · exact .refl type _
    · refine (ReadsAlike.refl type _).cons (hkey.trans hkey'.symm) fun found mine hfound hmine => ?_
      obtain rfl : spec = found := Option.some.inj (hkey.symm.trans hfound)
      exact hvalue mine hmine
  exact (ReadsAlike.of_perm (normalMembers_perm hmembers type)).trans
    (hown.trans (.of_perm (normalMembers_perm hothers.symm type)))

theorem fieldsOfItems_cons_ok {number : Nat} {type : MessageType} {item : Json} {items : List Json}
    {fields : List Field} (h : fieldsOfItems number type (item :: items) = .ok fields) :
    ∃ mine others, fieldsOfJson type item = .ok mine ∧ fieldsOfItems number type items = .ok others
      ∧ fields = .message number mine :: others := by
  unfold fieldsOfItems at h
  split at h
  · cases h
  · rename_i mine hmine
    split at h
    · cases h
    · rename_i others hothers
      cases h
      exact ⟨mine, others, hmine, hothers, rfl⟩

/-- A sequence with one element in the place of another that is read alike. -/
theorem fieldsOfItems_replace {item other : Json} (after : List Json)
    (hitem : ∀ mine, fieldsOfJson .transactionRecord (normal .transactionRecord item) = .ok mine →
      ∃ own, fieldsOfJson .transactionRecord (normal .transactionRecord other) = .ok own
        ∧ Interchangeable .transactionRecord mine own) :
    ∀ (before : List Json) (fields : List Field),
      fieldsOfItems 1 .transactionRecord (normalItems .transactionRecord (before ++ item :: after))
        = .ok fields →
      ∃ fields', fieldsOfItems 1 .transactionRecord
          (normalItems .transactionRecord (before ++ other :: after)) = .ok fields'
        ∧ Interchangeable .mempoolResponse fields fields'
  | [], fields, h => by
      obtain ⟨mine, others, hmine, hothers, rfl⟩ := fieldsOfItems_cons_ok h
      obtain ⟨own, hown, hsame⟩ := hitem mine hmine
      refine ⟨.message 1 own :: others, ?_, hsame.record.append (.refl _ others)⟩
      simp only [List.nil_append, normalItems, fieldsOfItems, hown, hothers]
  | first :: before, fields, h => by
      obtain ⟨mine, others, hmine, hothers, rfl⟩ := fieldsOfItems_cons_ok h
      obtain ⟨others', hothers', hsame⟩ := fieldsOfItems_replace after hitem before others hothers
      refine ⟨.message 1 mine :: others', ?_,
        (Interchangeable.refl _ [.message 1 mine]).append hsame⟩
      simp only [List.cons_append, normalItems, fieldsOfItems, hmine, hothers']

/-- **A value and the same value with a key respelled are read as fields that no message tells
apart.** -/
theorem Respelled.readsAlike {type : MessageType} {value other : Json}
    (h : Respelled type value other) : ∀ fields,
      fieldsOfJson type (normal type value) = .ok fields →
      ∃ fields', fieldsOfJson type (normal type other) = .ok fields'
        ∧ Interchangeable type fields fields' := by
  induction h with
  | @here type _ _ _ _ _ _ _ hkey hkey' _ hmembers hothers =>
      exact ReadsAlike.of_member hmembers hothers hkey hkey' rfl
        (fun mine hmine => ⟨mine, hmine, .refl type mine⟩) []
  | @token front back value other hvalue ih =>
      obtain ⟨members, others, rfl, rfl⟩ := hvalue.exists_objects
      have hspec : MessageType.fieldByKey? .transactionRecord "token"
          = some ⟨6, "token", "token", .message .token⟩ := rfl
      have halike : ReadsAlike .transactionRecord
          (normalMembers .transactionRecord (front ++ ("token", .object members) :: back))
          (normalMembers .transactionRecord (front ++ ("token", .object others) :: back)) := by
        refine .of_member List.perm_middle List.perm_middle hspec hspec rfl fun mine hmine => ?_
        obtain ⟨inside, hinside, rfl⟩ := exists_of_map_eq_ok hmine
        obtain ⟨inside', hinside', hsame⟩ := ih inside hinside
        refine ⟨[.message 6 inside'], ?_, hsame.token⟩
        exact congrArg (Except.map fun fields => [Field.message 6 fields]) hinside'
      exact halike []
  | @record front back key before after item other hkey hitem ih =>
      have hspec := fieldByKey?_transactionRecords hkey
      have halike : ReadsAlike .mempoolResponse
          (normalMembers .mempoolResponse
            (front ++ (key, .array (before ++ item :: after)) :: back))
          (normalMembers .mempoolResponse
            (front ++ (key, .array (before ++ other :: after)) :: back)) := by
        refine .of_member List.perm_middle List.perm_middle hspec hspec rfl fun mine hmine => ?_
        exact fieldsOfItems_replace after ih before mine hmine
      exact halike []

theorem Respelled.ofJsonLenient {type : MessageType} {value other : Json}
    (h : Respelled type value other) {message : Message}
    (hread : ofJsonLenient type value = .ok message) :
    Message.ofJsonLenient type other = .ok message := by
  obtain ⟨fields, hfields, rfl⟩ := ofJsonLenient_ok hread
  obtain ⟨fields', hfields', hsame⟩ := h.readsAlike fields hfields
  rw [ofJsonLenient_of_fieldsOfJson hfields', hsame.ofFields_eq]

/-! ### Respelled values are searched alike -/

theorem unknownKeyOfMembers?_eq_none_iff {type : MessageType} {members : List (String × Json)} :
    unknownKeyOfMembers? type members = none
      ↔ ∀ member ∈ members, unknownKeyOfMember? type member.1 member.2 = none := by
  induction members with
  | nil => simp [unknownKeyOfMembers?]
  | cons member members ih =>
      rw [unknownKeyOfMembers?_cons, Option.or_eq_none_iff, ih, List.forall_mem_cons]

theorem unknownKeyOfItems?_eq_none_iff {type : MessageType} {items : List Json} :
    unknownKeyOfItems? type items = none ↔ ∀ item ∈ items, unknownKey? type item = none := by
  induction items with
  | nil => simp [unknownKeyOfItems?]
  | cons item items ih =>
      rw [unknownKeyOfItems?, Option.or_eq_none_iff, ih, List.forall_mem_cons]

/-- In an object, one member in the place of another that is searched alike. -/
theorem unknownKeyOfMembers?_eq_none_of_member {type : MessageType}
    {members others rest : List (String × Json)} {member other : String × Json}
    (hmembers : members.Perm (member :: rest)) (hothers : others.Perm (other :: rest))
    (hmember : unknownKeyOfMember? type member.1 member.2 = none →
      unknownKeyOfMember? type other.1 other.2 = none)
    (h : unknownKeyOfMembers? type members = none) : unknownKeyOfMembers? type others = none := by
  rw [unknownKeyOfMembers?_eq_none_iff] at h ⊢
  have hrest : ∀ found ∈ member :: rest, unknownKeyOfMember? type found.1 found.2 = none :=
    fun found hfound => h found (hmembers.mem_iff.mpr hfound)
  obtain ⟨hown, hrest⟩ := List.forall_mem_cons.mp hrest
  intro found hfound
  rcases List.mem_cons.mp (hothers.mem_iff.mp hfound) with rfl | hfound
  · exact hmember hown
  · exact hrest found hfound

/-- A key that is respelled names a field in either spelling. -/
theorem Respelled.unknownKey?_eq_none {type : MessageType} {value other : Json}
    (h : Respelled type value other) :
    unknownKey? type value = none → unknownKey? type other = none := by
  induction h with
  | here hkey hkey' _ hmembers hothers =>
      refine unknownKeyOfMembers?_eq_none_of_member hmembers hothers fun hmember => ?_
      rw [unknownKeyOfMember?, hkey']
      rwa [unknownKeyOfMember?, hkey] at hmember
  | token hvalue ih =>
      obtain ⟨members, others, rfl, rfl⟩ := hvalue.exists_objects
      exact unknownKeyOfMembers?_eq_none_of_member List.perm_middle List.perm_middle ih
  | @record front back key before after item other hkey hitem ih =>
      refine unknownKeyOfMembers?_eq_none_of_member List.perm_middle List.perm_middle fun h => ?_
      have hspec := fieldByKey?_transactionRecords hkey
      rw [unknownKeyOfMember?, hspec] at h ⊢
      show unknownKeyOfItems? .transactionRecord _ = none
      have hitems : unknownKeyOfItems? .transactionRecord (before ++ item :: after) = none := h
      rw [unknownKeyOfItems?_eq_none_iff, List.forall_mem_append, List.forall_mem_cons] at hitems ⊢
      exact ⟨hitems.1, ih hitems.2.1, hitems.2.2⟩

theorem Respelled.ofJson {type : MessageType} {value other : Json} (h : Respelled type value other)
    {policy : KeyPolicy} {message : Message} (hread : ofJson type policy value = .ok message) :
    Message.ofJson type policy other = .ok message := by
  have hlenient := h.ofJsonLenient (ofJson_ok hread)
  cases policy with
  | lenient => exact hlenient
  | strict =>
      have hnone : unknownKey? type value = none := by
        unfold Message.ofJson at hread
        simp only at hread
        split at hread
        · cases hread
        · assumption
      simp only [Message.ofJson, h.unknownKey?_eq_none hnone, hlenient]

/-! ### Both spellings -/

/-- Members for one field under two keys are not read. -/
theorem fieldsOfMembers_ne_ok_of_both {type : MessageType} {members : List (String × Json)}
    {key key' : String} {found found' : Json} {spec : FieldSpec} (hne : key ≠ key')
    (hspec : type.fieldByKey? key = some spec) (hspec' : type.fieldByKey? key' = some spec)
    (hmember : (key, found) ∈ members) (hmember' : (key', found') ∈ members) (seen : List Nat)
    (fields : List Field) : fieldsOfMembers type seen members ≠ .ok fields := by
  induction members generalizing seen fields with
  | nil => cases hmember
  | cons member members ih =>
      intro hread
      rcases fieldsOfMembers_cons_ok hread with ⟨hnone, hmore⟩ | ⟨named, mine, others, hnamed, -, -,
        hmore, -⟩
      · rcases List.mem_cons.mp hmember with rfl | hmember
        · cases hspec.symm.trans hnone
        · rcases List.mem_cons.mp hmember' with rfl | hmember'
          · cases hspec'.symm.trans hnone
          · exact ih hmember hmember' seen fields hmore
      · -- The first of the two has the field seen when the second is come to.
        rcases List.mem_cons.mp hmember with rfl | hbehind
        · obtain rfl : spec = named := Option.some.inj (hspec.symm.trans hnamed)
          rcases List.mem_cons.mp hmember' with heq | hbehind'
          · exact hne (congrArg Prod.fst heq).symm
          · exact (fieldsOfMembers_split hmore hbehind' hspec').1 List.mem_cons_self
        · rcases List.mem_cons.mp hmember' with rfl | hbehind'
          · obtain rfl : spec = named := Option.some.inj (hspec'.symm.trans hnamed)
            exact (fieldsOfMembers_split hmore hbehind hspec).1 List.mem_cons_self
          · exact ih hbehind hbehind' _ others hmore

/-- **The two spellings of a key are interchangeable, and exclude each other.** In every object of
a value that stands for a message, the only member for a field may have its key in the other
spelling, wherever it moves to. Under either policy the value is then read exactly if it was, and
as the same message. A value with both spellings in one of these objects, neither member `null`, is
refused. -/
theorem ofJson_respelled (type : MessageType) (policy : KeyPolicy) (value : Json) :
    (∀ path inner members key key' found rest others spec, ObjectAt type value path inner members →
        inner.fieldByKey? key = some spec → inner.fieldByKey? key' = some spec →
        members.Perm ((key, found) :: rest) → others.Perm ((key', found) :: rest) →
        (∀ member ∈ rest, inner.fieldByKey? member.1 ≠ some spec) →
        ∃ other, Respelled type value other ∧ ObjectAt type other path inner others)
      ∧ (∀ other, Respelled type value other → ∀ message,
        ofJson type policy other = .ok message ↔ ofJson type policy value = .ok message)
      ∧ ∀ path inner members key key' found found' spec, ObjectAt type value path inner members →
        inner.fieldByKey? key = some spec → inner.fieldByKey? key' = some spec → key ≠ key' →
        (key, found) ∈ members → (key', found') ∈ members → found.isNull = false →
        found'.isNull = false → ∃ error, ofJson type policy value = .error error := by
  refine ⟨?_, fun other h message => ⟨h.symm.ofJson, h.ofJson⟩, ?_⟩
  · intro path inner members key key' found rest others spec hobject hkey hkey' hmembers hothers
      honly
    exact Respelled.exists_of_objectAt hobject hkey hkey' honly hmembers hothers
  · intro path inner members key key' found found' spec hobject hkey hkey' hne hmember hmember'
      hnull hnull'
    refine exists_error fun message hread => ?_
    obtain ⟨part, -, hpart⟩ := hobject.exists_part (ofJson_ok hread)
    obtain ⟨fields, hfields, -⟩ := ofJsonLenient_ok hpart
    exact fieldsOfMembers_ne_ok_of_both hne hkey hkey' (mem_normalMembers hmember hkey hnull)
      (mem_normalMembers hmember' hkey' hnull') [] fields hfields

/-- In the only transaction of a response the address of the sender moves behind the public key when
it is respelled, and the response is read as before; with the address in both spellings it is
refused. -/
theorem ofJson_respelled_sender :
    (∀ message, ofJson .mempoolResponse .strict
        (.object [("transactionRecords", .array [.object
          [("senderPublicKey", .string "k"), ("sender_address", .string "a")]])]) = .ok message
      ↔ ofJson .mempoolResponse .strict
        (.object [("transactionRecords", .array [.object
          [("senderAddress", .string "a"), ("senderPublicKey", .string "k")]])]) = .ok message)
      ∧ ofJson .mempoolResponse .strict
        (.object [("transactionRecords", .array [.object
          [("senderAddress", .string "a"), ("senderPublicKey", .string "k")]])])
        = .ok (.mempoolResponse ⟨[{ senderAddress := "a", senderPublicKey := "k" }]⟩)
      ∧ ∃ error, ofJson .mempoolResponse .strict
        (.object [("transactionRecords", .array [.object
          [("senderAddress", .string "a"), ("sender_address", .string "a")]])]) = .error error := by
  have hspec : MessageType.fieldByKey? .transactionRecord "senderAddress"
      = some ⟨3, "sender_address", "senderAddress", .text⟩ := rfl
  have hspec' : MessageType.fieldByKey? .transactionRecord "sender_address"
      = some ⟨3, "sender_address", "senderAddress", .text⟩ := rfl
  refine ⟨?_, rfl, ?_⟩
  · have honly : ∀ member ∈ [("senderPublicKey", Json.string "k")],
        MessageType.fieldByKey? .transactionRecord member.1
          ≠ some ⟨3, "sender_address", "senderAddress", .text⟩ := by
      simp only [List.forall_mem_singleton]
      decide
    have hrecord : Respelled .transactionRecord
        (.object [("senderAddress", .string "a"), ("senderPublicKey", .string "k")])
        (.object [("senderPublicKey", .string "k"), ("sender_address", .string "a")]) :=
      .here hspec hspec' honly (.refl _) (.swap _ _ _)
    exact (ofJson_respelled .mempoolResponse .strict _).2.1 _
      (@Respelled.record [] [] "transactionRecords" [] [] _ _ (.inl rfl) hrecord)
  · have hboth : ObjectAt .mempoolResponse
        (.object [("transactionRecords", .array [.object
          [("senderAddress", .string "a"), ("sender_address", .string "a")]])])
        [⟨"transactionRecords", 0⟩] .transactionRecord
        [("senderAddress", .string "a"), ("sender_address", .string "a")] :=
      .record (.inl rfl) List.mem_cons_self rfl .root
    exact (ofJson_respelled .mempoolResponse .strict _).2.2 _ _ _ "senderAddress" "sender_address"
      (.string "a") (.string "a") _ hboth hspec hspec' (by decide) List.mem_cons_self
      (List.mem_cons_of_mem _ List.mem_cons_self) rfl rfl

end NodeView.Message
