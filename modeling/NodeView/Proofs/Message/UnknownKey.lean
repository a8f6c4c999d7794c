import NodeView.Message.Decode
/-!
# NodeView.Proofs.Message.UnknownKey

Which keys a strict reading refuses, and which of them it reports.

The objects of a value that stand for messages are told by the way to them (`ObjectAt`), and an
unknown key by the way to its object and itself. These places are ordered as a reader comes
across them: by the keys on the way, and by the elements under a key (`Step.Before`, compared
place by place from the left). The search finds the first of the places that it looks through
(`Sites.Finds`), if what it looks through first comes before all the rest (`Sites.Finds.or`);
that keys are in ascending order is what makes this so for the members of an object. Every value
that is read from a text has its keys in this order (`Json.sorted_of_parse`).
-/

namespace NodeView.Message

/-! ### Places -/

/-- A step to what is under a key: to one of the elements, where a sequence is under it. -/
structure Step where
  key : String
  index : Nat := 0
  deriving DecidableEq

/-- Which of two steps from one object is taken first. -/
def Step.Before (a b : Step) : Prop := a.key < b.key ∨ a.key = b.key ∧ a.index < b.index

/-- The way to an object of a value that stands for a message of some type, the type of the
message that the object stands for, and its members. -/
inductive ObjectAt : MessageType → Json → List Step → MessageType → List (String × Json) → Prop
    where
  | root {type : MessageType} {members : List (String × Json)} :
      ObjectAt type (.object members) [] type members
  | token {members found : List (String × Json)} {value : Json} {path : List Step}
      {inner : MessageType} (hmember : ("token", value) ∈ members)
      (hvalue : ObjectAt .token value path inner found) :
      ObjectAt .transactionRecord (.object members) (⟨"token", 0⟩ :: path) inner found
  | record {members found : List (String × Json)} {key : String} {items : List Json}
      {index : Nat} {item : Json} {path : List Step} {inner : MessageType}
      (hkey : key = "transactionRecords" ∨ key = "transaction_records")
      (hmember : (key, .array items) ∈ members) (hitem : items[index]? = some item)
      (hvalue : ObjectAt .transactionRecord item path inner found) :
      ObjectAt .mempoolResponse (.object members) (⟨key, index⟩ :: path) inner found

/-- A key is no spelling of a field of a message. -/
def NamesNoField (type : MessageType) (key : String) : Prop :=
  ∀ spec ∈ type.fields, key ≠ spec.jsonName ∧ key ≠ spec.name

/-- The place of a key that names no field of the message in whose object it stands. -/
def UnknownAt (type : MessageType) (value : Json) (place : List Step)
    (found : MessageType × String) : Prop :=
  ∃ path members, ObjectAt type value path found.1 members
    ∧ found.2 ∈ members.map (·.1) ∧ NamesNoField found.1 found.2
    ∧ place = path ++ [⟨found.2, 0⟩]

/-- Places and what is found there. -/
abbrev Sites := List Step → MessageType × String → Prop

/-- A place is the first one, and nothing else is found there. -/
def Sites.First (sites : Sites) (place : List Step) (found : MessageType × String) : Prop :=
  sites place found ∧ ∀ other another, sites other another →
    (other = place ∧ another = found) ∨ List.Lex Step.Before place other

/-- A search finds what is at the first place, and nothing only if there is no place. -/
def Sites.Finds (sites : Sites) : Option (MessageType × String) → Prop
  | none => ∀ place found, ¬ sites place found
  | some found => ∃ place, sites.First place found

/-! ### Order of places -/

theorem Step.not_before_self (a : Step) : ¬ a.Before a := by
  rintro (h | ⟨-, h⟩)
  · exact String.lt_irrefl _ h
  · exact Nat.lt_irrefl _ h

theorem Step.Before.asymm {a b : Step} (h : a.Before b) : ¬ b.Before a := by
  obtain ⟨ka, ia⟩ := a
  obtain ⟨kb, ib⟩ := b
  rintro (h' | ⟨rfl, h'⟩)
  · rcases h with h | ⟨rfl, -⟩
    · exact String.lt_asymm h h'
    · exact String.lt_irrefl _ h'
  · rcases h with h | ⟨-, h⟩
    · exact String.lt_irrefl _ h
    · exact Nat.lt_asymm h h'

theorem lex_asymm {place other : List Step} (h : List.Lex Step.Before place other) :
    ¬ List.Lex Step.Before other place := by
  intro h'
  induction h with
  | nil => cases h'
  | rel hab =>
      cases h' with
      | cons => exact Step.not_before_self _ hab
      | rel hba => exact hab.asymm hba
  | cons _ ih =>
      cases h' with
      | cons h' => exact ih h'
      | rel hba => exact Step.not_before_self _ hba

/-- There is only one first place. -/
theorem Sites.First.unique {sites : Sites} {place other : List Step}
    {found another : MessageType × String} (h : sites.First place found)
    (h' : sites.First other another) : found = another := by
  rcases h.2 other another h'.1 with ⟨-, heq⟩ | hlt
  · exact heq.symm
  · rcases h'.2 place found h.1 with ⟨-, heq⟩ | hgt
    · exact heq
    · exact absurd hgt (lex_asymm hlt)

/-! ### Searches -/

section

variable {sites others : Sites} {result other : Option (MessageType × String)}

theorem Sites.Finds.congr (h : sites.Finds result)
    (hiff : ∀ place found, others place found ↔ sites place found) : others.Finds result := by
  have heq : others = sites := by
    funext place found
    exact propext (hiff place found)
  rwa [heq]

/-- A search goes on where an earlier one ended without a result. -/
theorem Sites.Finds.or (h : sites.Finds result) (h' : others.Finds other)
    (hbefore : ∀ {place place' found found'}, sites place found → others place' found' →
      List.Lex Step.Before place place') :
    Sites.Finds (fun place found => sites place found ∨ others place found) (result.or other) := by
  cases result with
  | none =>
      refine h'.congr fun place found => ?_
      exact or_iff_right (h place found)
  | some found =>
      obtain ⟨place, hplace, hfirst⟩ := h
      refine ⟨place, .inl hplace, ?_⟩
      rintro place' found' (hsite | hsite)
      · exact hfirst place' found' hsite
      · exact .inr (hbefore hplace hsite)

/-- One step further on the way, what is found first is the same. -/
theorem Sites.Finds.under (h : sites.Finds result) (step : Step) :
    Sites.Finds (fun place found => ∃ path, place = step :: path ∧ sites path found) result := by
  cases result with
  | none =>
      rintro place found ⟨path, -, hsite⟩
      exact h path found hsite
  | some found =>
      obtain ⟨path, hpath, hfirst⟩ := h
      refine ⟨step :: path, ⟨path, rfl, hpath⟩, ?_⟩
      rintro place' found' ⟨path', rfl, hsite⟩
      rcases hfirst path' found' hsite with ⟨rfl, rfl⟩ | hlt
      · exact .inl ⟨rfl, rfl⟩
      · exact .inr (.cons hlt)

end

/-! ### Keys and fields -/

theorem fieldByKey?_eq_none_iff {type : MessageType} {key : String} :
    type.fieldByKey? key = none ↔ NamesNoField type key := by
  simp [MessageType.fieldByKey?, NamesNoField, FieldSpec.matchesKey]

/-- The tables have one field that is a message, the token of a transaction. -/
theorem eq_of_kind_message {type inner : MessageType} {spec : FieldSpec}
    (hspec : spec ∈ type.fields) (hkind : spec.kind = .message inner) :
    type = .transactionRecord ∧ spec = ⟨6, "token", "token", .message .token⟩
      ∧ inner = .token := by
  have htables : ∀ spec ∈ type.fields, spec.kind = .message inner →
      type = .transactionRecord ∧ spec = ⟨6, "token", "token", .message .token⟩
        ∧ inner = .token := by
    cases type <;> cases inner <;> decide
  exact htables spec hspec hkind

/-- The tables have one field that is a sequence, the transactions of a response. -/
theorem eq_of_kind_repeated {type inner : MessageType} {spec : FieldSpec}
    (hspec : spec ∈ type.fields) (hkind : spec.kind = .repeated inner) :
    type = .mempoolResponse
      ∧ spec = ⟨1, "transaction_records", "transactionRecords", .repeated .transactionRecord⟩
      ∧ inner = .transactionRecord := by
  have htables : ∀ spec ∈ type.fields, spec.kind = .repeated inner →
      type = .mempoolResponse
        ∧ spec = ⟨1, "transaction_records", "transactionRecords", .repeated .transactionRecord⟩
        ∧ inner = .transactionRecord := by
    cases type <;> cases inner <;> decide
  exact htables spec hspec hkind

/-! ### What is under a key -/

/-- The places in the value of a field of some kind under a key. -/
inductive UnknownUnder (key : String) : FieldKind → Json → Sites where
  | message {inner : MessageType} {value : Json} {path : List Step} {found : MessageType × String}
      (hvalue : UnknownAt inner value path found) :
      UnknownUnder key (.message inner) value (⟨key, 0⟩ :: path) found
  | element {inner : MessageType} {items : List Json} {index : Nat} {item : Json}
      {path : List Step} {found : MessageType × String} (hitem : items[index]? = some item)
      (hvalue : UnknownAt inner item path found) :
      UnknownUnder key (.repeated inner) (.array items) (⟨key, index⟩ :: path) found

/-- The places in a member of a message: the key itself, or what is under it. -/
def UnknownIn (type : MessageType) (key : String) (value : Json) : Sites := fun place found =>
  match type.fieldByKey? key with
  | none => place = [⟨key, 0⟩] ∧ found = (type, key)
  | some spec => UnknownUnder key spec.kind value place found

theorem UnknownUnder.head {key : String} {kind : FieldKind} {value : Json} {place : List Step}
    {found : MessageType × String} (h : UnknownUnder key kind value place found) :
    ∃ index path, place = ⟨key, index⟩ :: path := by
  cases h with
  | message => exact ⟨0, _, rfl⟩
  | element => exact ⟨_, _, rfl⟩

theorem UnknownIn.head {type : MessageType} {key : String} {value : Json} {place : List Step}
    {found : MessageType × String} (h : UnknownIn type key value place found) :
    ∃ index path, place = ⟨key, index⟩ :: path := by
  unfold UnknownIn at h
  split at h
  · exact ⟨0, [], h.1⟩
  · exact h.head

/-- The places in an object are those in its members. -/
theorem unknownAt_object_iff {type : MessageType} {members : List (String × Json)}
    {place : List Step} {found : MessageType × String} :
    UnknownAt type (.object members) place found
      ↔ ∃ member ∈ members, UnknownIn type member.1 member.2 place found := by
  constructor
  · rintro ⟨path, inside, hobject, hkey, hunknown, rfl⟩
    cases hobject with
    | root =>
        obtain ⟨member, hmember, hfound⟩ := List.mem_map.mp hkey
        refine ⟨member, hmember, ?_⟩
        rw [UnknownIn, hfound, fieldByKey?_eq_none_iff.mpr hunknown]
        exact ⟨rfl, rfl⟩
    | token hmember hvalue =>
        exact ⟨_, hmember, .message ⟨_, _, hvalue, hkey, hunknown, rfl⟩⟩
    | record hname hmember hitem hvalue =>
        refine ⟨_, hmember, ?_⟩
        rcases hname with rfl | rfl
        all_goals exact .element hitem ⟨_, _, hvalue, hkey, hunknown, rfl⟩
  · rintro ⟨⟨key, value⟩, hmember, hunknown⟩
    unfold UnknownIn at hunknown
    split at hunknown
    · rename_i hnone
      obtain ⟨rfl, rfl⟩ := hunknown
      exact ⟨[], members, .root, List.mem_map.mpr ⟨_, hmember, rfl⟩,
        fieldByKey?_eq_none_iff.mp hnone, rfl⟩
    · rename_i spec hspec
      have hmem := List.mem_of_find?_eq_some hspec
      have hnames := List.find?_some hspec
      obtain ⟨number, name, jsonName, kind⟩ := spec
      cases hunknown with
      | message hvalue =>
          obtain ⟨path, inside, hobject, hkey, hunknown, rfl⟩ := hvalue
          obtain ⟨rfl, hspec, rfl⟩ := eq_of_kind_message hmem rfl
          cases hspec
          obtain rfl : key = "token" := by simpa [FieldSpec.matchesKey] using hnames
          exact ⟨_, inside, .token hmember hobject, hkey, hunknown, rfl⟩
      | element hitem hvalue =>
          obtain ⟨path, inside, hobject, hkey, hunknown, rfl⟩ := hvalue
          obtain ⟨rfl, hspec, rfl⟩ := eq_of_kind_repeated hmem rfl
          cases hspec
          have hname : key = "transactionRecords" ∨ key = "transaction_records" := by
            simpa [FieldSpec.matchesKey] using hnames
          exact ⟨_, inside, .record hname hmember hitem hobject, hkey, hunknown, rfl⟩

/-- Only an object has places. -/
theorem UnknownAt.exists_object {type : MessageType} {value : Json} {place : List Step}
    {found : MessageType × String} (h : UnknownAt type value place found) :
    ∃ members, value = .object members := by
  obtain ⟨path, inside, hobject, -⟩ := h
  cases hobject <;> exact ⟨_, rfl⟩

/-! ### The search -/

/-- What the search comes to with a member before it goes on to the next. -/
def unknownKeyOfMember? (type : MessageType) (key : String) (value : Json) :
    Option (MessageType × String) :=
  match type.fieldByKey? key with
  | none => some (type, key)
  | some spec => unknownKeyOfValue? spec.kind value

theorem unknownKeyOfMembers?_cons (type : MessageType) (key : String) (value : Json)
    (members : List (String × Json)) :
    unknownKeyOfMembers? type ((key, value) :: members)
      = (unknownKeyOfMember? type key value).or (unknownKeyOfMembers? type members) := by
  cases hspec : type.fieldByKey? key <;> simp [unknownKeyOfMembers?, unknownKeyOfMember?, hspec]

mutual

/-- The search of a value finds its first place. -/
theorem finds_unknownKey : ∀ (value : Json) (type : MessageType), value.Sorted →
    Sites.Finds (UnknownAt type value) (unknownKey? type value)
  | .object members, type, h =>
      (finds_unknownKeyOfMembers members type h.1 h.2).congr fun _ _ => unknownAt_object_iff
  | .null, _, _ | .bool _, _, _ | .integer _, _, _ | .float _, _, _ | .string _, _, _
  | .array _, _, _ => by
      intro place found hunknown
      obtain ⟨members, hmembers⟩ := hunknown.exists_object
      cases hmembers

/-- The search of some members finds the first place in them. -/
theorem finds_unknownKeyOfMembers : ∀ (members : List (String × Json)) (type : MessageType),
    Keyed.Sorted members → Json.SortedMembers members →
    Sites.Finds (fun place found =>
        ∃ member ∈ members, UnknownIn type member.1 member.2 place found)
      (unknownKeyOfMembers? type members)
  | [], _, _, _ => by
      rintro place found ⟨member, hmember, -⟩
      cases hmember
  | (key, value) :: members, type, hkeys, hvalues => by
      obtain ⟨hlater, hkeys⟩ := List.pairwise_cons.mp hkeys
      have hmore := finds_unknownKeyOfMembers members type hkeys hvalues.2
      have hhead : Sites.Finds (UnknownIn type key value) (unknownKeyOfMember? type key value) := by
        unfold UnknownIn unknownKeyOfMember?
        cases hspec : type.fieldByKey? key with
        | none =>
            refine ⟨[⟨key, 0⟩], ⟨rfl, rfl⟩, ?_⟩
            rintro other another ⟨rfl, rfl⟩
            exact .inl ⟨rfl, rfl⟩
        | some spec => exact finds_unknownKeyOfValue value spec.kind key hvalues.1
      -- The keys of the members behind the first are greater than the key of the first.
      have hboth := hhead.or hmore (by
        rintro place place' found found' hfirst ⟨member, hmember, hsecond⟩
        obtain ⟨index, path, rfl⟩ := hfirst.head
        obtain ⟨index', path', rfl⟩ := hsecond.head
        exact .rel (.inl (hlater member hmember)))
      rw [unknownKeyOfMembers?_cons]
      refine hboth.congr fun place found => ?_
      simp only [List.mem_cons, exists_eq_or_imp]

/-- The search of the value of a field finds the first place under its key. -/
theorem finds_unknownKeyOfValue : ∀ (value : Json) (kind : FieldKind) (key : String),
    value.Sorted → Sites.Finds (UnknownUnder key kind value) (unknownKeyOfValue? kind value)
  | .object members, kind, key, h => by
      cases kind with
      | message inner =>
          have hmembers := finds_unknownKeyOfMembers members inner h.1 h.2
          refine (hmembers.under ⟨key, 0⟩).congr fun place found => ?_
          constructor
          · rintro ⟨hvalue⟩
            exact ⟨_, rfl, unknownAt_object_iff.mp hvalue⟩
          · rintro ⟨path, rfl, hvalue⟩
            exact .message (unknownAt_object_iff.mpr hvalue)
      | _ =>
          intro place found hunknown
          cases hunknown
  | .array items, kind, key, h => by
      cases kind with
      | repeated inner =>
          refine (finds_unknownKeyOfItems items inner key 0 h).congr fun place found => ?_
          constructor
          · rintro ⟨⟩
            exact ⟨_, _, _, ‹_›, by rw [Nat.zero_add], ‹_›⟩
          · rintro ⟨index, item, path, hitem, rfl, hvalue⟩
            rw [Nat.zero_add]
            exact .element hitem hvalue
      | message inner =>
          intro place found hunknown
          cases hunknown with
          | message hvalue =>
              obtain ⟨members, hmembers⟩ := hvalue.exists_object
              cases hmembers
      | _ =>
          intro place found hunknown
          cases hunknown
  | .null, _, _, _ | .bool _, _, _, _ | .integer _, _, _, _ | .float _, _, _, _
  | .string _, _, _, _ => by
      intro place found hunknown
      cases hunknown with
      | message hvalue =>
          obtain ⟨members, hmembers⟩ := hvalue.exists_object
          cases hmembers

/-- The search of some elements, numbered from `start`, finds the first place in them. -/
theorem finds_unknownKeyOfItems : ∀ (items : List Json) (inner : MessageType) (key : String)
    (start : Nat), Json.SortedItems items →
    Sites.Finds (fun place found => ∃ index item path, items[index]? = some item
        ∧ place = ⟨key, start + index⟩ :: path ∧ UnknownAt inner item path found)
      (unknownKeyOfItems? inner items)
  | [], _, _, _, _ => by
      rintro place found ⟨index, item, path, hitem, -⟩
      cases hitem
  | item :: items, inner, key, start, h => by
      have hhead := (finds_unknownKey item inner h.1).under ⟨key, start⟩
      have hmore := finds_unknownKeyOfItems items inner key (start + 1) h.2
      have hboth := hhead.or hmore (by
        rintro place place' found found' ⟨path, rfl, -⟩ ⟨index, item, path', -, rfl, -⟩
        exact .rel (.inr ⟨rfl, by simp only; omega⟩))
      refine hboth.congr fun place found => ?_
      constructor
      · rintro ⟨index, other, path, hother, rfl, hvalue⟩
        cases index with
        | zero =>
            cases hother
            exact .inl ⟨path, rfl, hvalue⟩
        | succ index =>
            exact .inr ⟨index, other, path, hother, by rw [Nat.add_right_comm]; rfl, hvalue⟩
      · rintro (⟨path, rfl, hvalue⟩ | ⟨index, other, path, hother, rfl, hvalue⟩)
        · exact ⟨0, item, path, rfl, rfl, hvalue⟩
        · exact ⟨index + 1, other, path, hother, by rw [Nat.add_right_comm]; rfl, hvalue⟩

end

/-! ### Strict reading -/

theorem ofJsonLenient_ne_unknownField (type inner : MessageType) (value : Json) (key : String) :
    ofJsonLenient type value ≠ .error (.unknownField inner key) := by
  unfold ofJsonLenient
  split <;> simp

/-- A strict reading reports what the search comes to. -/
theorem ofJson_strict_eq_unknownField_iff {type inner : MessageType} {value : Json}
    {key : String} :
    ofJson type .strict value = .error (.unknownField inner key)
      ↔ unknownKey? type value = some (inner, key) := by
  cases hfound : unknownKey? type value with
  | none => simp [ofJson, hfound, ofJsonLenient_ne_unknownField]
  | some found => simp [ofJson, hfound, Prod.ext_iff]

/-- The way to an object leads through tokens and transactions only. -/
theorem ObjectAt.keys {type inner : MessageType} {value : Json} {path : List Step}
    {members : List (String × Json)} (h : ObjectAt type value path inner members) :
    ∀ step ∈ path, step.key ∈ ["token", "transactionRecords", "transaction_records"] := by
  induction h with
  | root =>
      intro step hstep
      cases hstep
  | token _ _ ih => exact List.forall_mem_cons.mpr ⟨by simp, ih⟩
  | record hkey _ _ _ ih => exact List.forall_mem_cons.mpr ⟨by simp [hkey], ih⟩

/-- **A strict reading refuses exactly what has an unknown key, and reports the first one.** It
agrees with a lenient one on everything else, and the contents of maps have no part in this. -/
theorem ofJson_strict_reports_first {type : MessageType} {value : Json} (h : value.Sorted) :
    ((∃ inner key, ofJson type .strict value = .error (.unknownField inner key))
        ↔ ∃ place found, UnknownAt type value place found)
      ∧ (∀ inner key, ofJson type .strict value = .error (.unknownField inner key)
        ↔ ∃ place, Sites.First (UnknownAt type value) place (inner, key))
      ∧ ((∀ place found, ¬ UnknownAt type value place found) →
        ofJson type .strict value = ofJson type .lenient value)
      ∧ ∀ path inner members, ObjectAt type value path inner members →
        ∀ step ∈ path, step.key ∈ ["token", "transactionRecords", "transaction_records"] := by
  have hfinds := finds_unknownKey value type h
  simp only [ofJson_strict_eq_unknownField_iff]
  cases hfound : unknownKey? type value with
  | none =>
      rw [hfound] at hfinds
      refine ⟨?_, ?_, ?_, fun path inner members hobject => hobject.keys⟩
      · constructor
        · rintro ⟨inner, key, hkey⟩
          cases hkey
        · rintro ⟨place, found, hunknown⟩
          exact absurd hunknown (hfinds place found)
      · intro inner key
        constructor
        · intro hkey
          cases hkey
        · rintro ⟨place, hunknown, -⟩
          exact absurd hunknown (hfinds place _)
      · intro _
        simp only [ofJson, hfound]
  | some found =>
      rw [hfound] at hfinds
      obtain ⟨place, hplace⟩ := hfinds
      refine ⟨?_, ?_, ?_, fun path inner members hobject => hobject.keys⟩
      · exact ⟨fun _ => ⟨place, found, hplace.1⟩, fun _ => ⟨found.1, found.2, rfl⟩⟩
      · intro inner key
        constructor
        · intro hkey
          cases hkey
          exact ⟨place, hplace⟩
        · rintro ⟨other, hother⟩
          rw [hplace.unique hother]
      · intro hnone
        exact absurd hplace.1 (hnone place found)

/-- An unknown key in the token of the second element comes before one that stands beside the
elements, whatever is wrong with the types; the keys of a map are no unknown ones. -/
theorem ofJson_strict_reports_first_token :
    let value : Json := .object
      [("transactionRecords", .array [.null, .object
          [("id", .integer 5), ("token", .object [("scale", .null)]),
           ("validators", .object [("unknown", .bool true)])]]),
       ("version", .integer 1)]
    value.Sorted
      ∧ ∃ place, Sites.First (UnknownAt .mempoolResponse value) place (.token, "scale") := by
  have hsorted : Json.Sorted (.object
      [("transactionRecords", .array [.null, .object
          [("id", .integer 5), ("token", .object [("scale", .null)]),
           ("validators", .object [("unknown", .bool true)])]]),
       ("version", .integer 1)]) := by
    simp only [Json.Sorted, Json.SortedMembers, Json.SortedItems, Keyed.Sorted, and_true, true_and]
    decide
  exact ⟨hsorted, ((ofJson_strict_reports_first hsorted).2.1 .token "scale").mp rfl⟩

end NodeView.Message
