import NodeView.Proofs.Message.Parts
import NodeView.Proofs.Message.WholeNumbers
/-!
# NodeView.Proofs.Message.Tidy

What normalising a value changes, and when there is nothing left to change.

A value is *tidy* if no message in it has a member that is `null`, or a floating-point number where
an integer field would have the integer. Normal forms are tidy, and the tidy values are those that
are their own normal forms (`normal_eq_self_iff`), so one pass is enough. For what a pass leaves
there are two kinds of places: the objects that stand for messages (`ObjectAt`), and the sequences
anywhere in a value (`Json.SequenceAt`). Both are afterwards where they were before (`Matched`);
what becomes of the members of an object is `Tidied`, and of the elements of a sequence
`Normalised`.
-/

namespace NodeView

/-! ### Places of sequences -/

/-- A step from a value to one of its parts. -/
inductive Json.Step where
  | member (key : String)
  | element (index : Nat)

/-- The way to a sequence in a value, whether or not it is in a message, and its elements. -/
inductive Json.SequenceAt : Json → List Json.Step → List Json → Prop where
  | here {items : List Json} : SequenceAt (.array items) [] items
  | member {members : List (String × Json)} {key : String} {value : Json} {path : List Json.Step}
      {found : List Json} (hmember : (key, value) ∈ members)
      (hvalue : SequenceAt value path found) :
      SequenceAt (.object members) (.member key :: path) found
  | element {items : List Json} {index : Nat} {item : Json} {path : List Json.Step}
      {found : List Json} (hitem : items[index]? = some item)
      (hvalue : SequenceAt item path found) :
      SequenceAt (.array items) (.element index :: path) found

/-- Whatever is here has a counterpart there, and the other way round. -/
def Matched {α : Type} (counterpart : α → α → Prop) (here there : α → Prop) : Prop :=
  (∀ a, here a → ∃ b, there b ∧ counterpart a b) ∧ ∀ b, there b → ∃ a, here a ∧ counterpart a b

namespace Message

variable {type inner : MessageType} {kind : FieldKind} {value : Json}

/-! ### Tidy values -/

/-- A value has nothing to normalise where a member of some kind has it: it is not `null`, and no
floating-point number that is a whole one in range. What messages there are in it is not asked. -/
structure TidyValue (kind : FieldKind) (value : Json) : Prop where
  given : value.isNull = false
  not_whole : ∀ x (n : Int), value = .float x → x.value ∈ wholeRange kind → x.value ≠ n

/-- No message in a value has a member to normalise. -/
def Tidy (type : MessageType) (value : Json) : Prop :=
  ∀ path inner members, ObjectAt type value path inner members →
    ∀ member ∈ members, TidyValue (kindUnder inner member.1) member.2

/-- The messages in the value of a field have no members to normalise. -/
def TidyInside : FieldKind → Json → Prop
  | .message inner, value => Tidy inner value
  | .repeated inner, .array items => ∀ item ∈ items, Tidy inner item
  | _, _ => True

/-! ### Normal forms are tidy -/

theorem normalScalar_eq_self_iff :
    normalScalar kind value = value
      ↔ ∀ x (n : Int), value = .float x → x.value ∈ wholeRange kind → x.value ≠ n := by
  constructor
  · rintro h x n rfl hrange hvalue
    rw [normalScalar, wholeNumber?_of_mem hvalue hrange] at h
    cases h
  · intro h
    cases value with
    | float x =>
        cases hwhole : wholeNumber? kind x with
        | none => simp only [normalScalar, hwhole]
        | some n =>
            obtain ⟨hrange, hvalue⟩ := wholeNumber?_eq_some_iff.mp hwhole
            exact absurd hvalue (h x n rfl hrange)
    | _ => rfl

/-- A floating-point number that normalising leaves is none that it rewrites. -/
theorem normalScalar_of_normalValue {x : Binary64} (h : normalValue kind value = .float x) :
    normalScalar kind (.float x) = .float x := by
  cases value with
  | object => cases kind <;> cases h
  | array => cases kind <;> cases h
  | float y =>
      rcases normalScalar_eq_or kind (.float y) with hsame | ⟨_, n, -, hsame⟩
      · cases hsame.symm.trans h
        exact hsame
      · cases hsame.symm.trans h
  | _ => cases h

theorem tidyValue_normalValue (hgiven : value.isNull = false) :
    TidyValue kind (normalValue kind value) where
  given := by rw [isNull_normalValue, hgiven]
  not_whole := by
    intro x n hx
    exact normalScalar_eq_self_iff.mp (normalScalar_of_normalValue hx) x n rfl

theorem objectAt_normal {path : List Step} {members : List (String × Json)}
    (h : ObjectAt type value path inner members) :
    ObjectAt type (normal type value) path inner (normalMembers inner members) := by
  induction h with
  | root => exact .root
  | token hmember hvalue ih =>
      obtain ⟨own, rfl⟩ := hvalue.exists_object
      exact .token (mem_normalMembers hmember rfl rfl) ih
  | record hkey hmember hitem _ ih =>
      have hmember' := mem_normalMembers hmember (fieldByKey?_transactionRecords hkey) rfl
      rw [normalValue_array] at hmember'
      have hitem' := congrArg (Option.map (normalValue (.message .transactionRecord))) hitem
      rw [← List.getElem?_map] at hitem'
      rw [← normalValue_message] at ih
      exact .record hkey hmember' hitem' ih

/-- Every object of a normal form is what is left of the object at its place. -/
theorem exists_of_objectAt_normal {path : List Step} {tidied : List (String × Json)}
    (h : ObjectAt type (normal type value) path inner tidied) :
    ∃ members, ObjectAt type value path inner members ∧ normalMembers inner members = tidied := by
  generalize hnormed : normal type value = normed at h
  induction h generalizing value with
  | root =>
      obtain ⟨members, rfl, rfl⟩ := exists_of_normal_object hnormed
      exact ⟨members, .root, rfl⟩
  | token hmember _ ih =>
      obtain ⟨members, rfl, rfl⟩ := exists_of_normal_object hnormed
      obtain ⟨⟨key, token⟩, hsource, -, hsame⟩ := mem_normalMembers_iff.mp hmember
      cases hsame
      obtain ⟨found, hfound, rfl⟩ := ih (normalValue_message .token token).symm
      exact ⟨found, .token hsource hfound, rfl⟩
  | record hkey hmember hitem _ ih =>
      obtain ⟨members, rfl, rfl⟩ := exists_of_normal_object hnormed
      obtain ⟨⟨key, records⟩, hsource, -, hsame⟩ := mem_normalMembers_iff.mp hmember
      obtain ⟨rfl, hrecords⟩ := Prod.mk.inj hsame
      rw [kindUnder_of_some (fieldByKey?_transactionRecords hkey)] at hrecords
      obtain ⟨items, rfl, rfl⟩ := exists_of_normalValue_array hrecords
      rw [List.getElem?_map] at hitem
      obtain ⟨record, hrecord, rfl⟩ := Option.map_eq_some_iff.mp hitem
      obtain ⟨found, hfound, rfl⟩ := ih (normalValue_message .transactionRecord record).symm
      exact ⟨found, .record hkey hsource hrecord hfound, rfl⟩

theorem tidy_normal (type : MessageType) (value : Json) : Tidy type (normal type value) := by
  intro path inner tidied hobject member hmember
  obtain ⟨members, -, rfl⟩ := exists_of_objectAt_normal hobject
  obtain ⟨source, -, hgiven, rfl⟩ := mem_normalMembers_iff.mp hmember
  exact tidyValue_normalValue hgiven

/-! ### Tidy values are normal forms -/

/-- Members of a tidy message are tidy, and so are the messages in them, which by the tables are a
token or transactions. -/
theorem Tidy.member {members : List (String × Json)} (h : Tidy type (.object members)) :
    ∀ member ∈ members, TidyValue (kindUnder type member.1) member.2
      ∧ TidyInside (kindUnder type member.1) member.2 := by
  rintro ⟨key, value⟩ hmember
  refine ⟨h [] type members .root _ hmember, ?_⟩
  cases hspec : type.fieldByKey? key with
  | none =>
      rw [kindUnder_of_none hspec]
      trivial
  | some spec =>
      rw [kindUnder_of_some hspec]
      have hmem := List.mem_of_find?_eq_some hspec
      have hnames := List.find?_some hspec
      cases hkind : spec.kind with
      | message inner =>
          obtain ⟨rfl, rfl, rfl⟩ := eq_of_kind_message hmem hkind
          obtain rfl : key = "token" := by simpa [FieldSpec.matchesKey] using hnames
          intro path inner found hobject
          exact h _ inner found (.token hmember hobject)
      | repeated inner =>
          obtain ⟨rfl, rfl, rfl⟩ := eq_of_kind_repeated hmem hkind
          have hkey : key = "transactionRecords" ∨ key = "transaction_records" := by
            simpa [FieldSpec.matchesKey] using hnames
          cases value with
          | array items =>
              intro item hitem path inner found hobject
              obtain ⟨index, hindex⟩ := List.mem_iff_getElem?.mp hitem
              exact h _ inner found (.record hkey hmember hindex hobject)
          | _ => trivial
      | _ => trivial

mutual

/-- Nothing in a tidy value is rewritten. -/
theorem normal_of_tidy : ∀ (value : Json) (type : MessageType), Tidy type value →
    normal type value = value
  | .object members, type, h => congrArg Json.object (normalMembers_of_tidy members type h.member)
  | .null, _, _ | .bool _, _, _ | .integer _, _, _ | .float _, _, _ | .string _, _, _
  | .array _, _, _ => rfl

/-- No member of a tidy message is dropped or rewritten. -/
theorem normalMembers_of_tidy : ∀ (members : List (String × Json)) (type : MessageType),
    (∀ member ∈ members, TidyValue (kindUnder type member.1) member.2
      ∧ TidyInside (kindUnder type member.1) member.2) →
    normalMembers type members = members
  | [], _, _ => rfl
  | (key, value) :: members, type, h => by
      obtain ⟨⟨hvalue, hinside⟩, hmembers⟩ := List.forall_mem_cons.mp h
      rw [normalMembers_cons hvalue.given, normalValue_of_tidy value _ hvalue hinside,
        normalMembers_of_tidy members type hmembers]

/-- The value of a field is not rewritten if it is tidy, and the messages in it are. -/
theorem normalValue_of_tidy : ∀ (value : Json) (kind : FieldKind), TidyValue kind value →
    TidyInside kind value → normalValue kind value = value
  | .object members, kind, _, h => by
      cases kind with
      | message inner =>
          exact congrArg Json.object (normalMembers_of_tidy members inner (Tidy.member h))
      | _ => rfl
  | .array items, kind, _, h => by
      cases kind with
      | repeated inner => exact congrArg Json.array (normalItems_of_tidy items inner h)
      | _ => rfl
  | .float _, _, h, _ => normalScalar_eq_self_iff.mpr h.not_whole
  | .null, _, _, _ | .bool _, _, _, _ | .integer _, _, _, _ | .string _, _, _, _ => rfl

/-- No element of a sequence of tidy messages is rewritten. -/
theorem normalItems_of_tidy : ∀ (items : List Json) (type : MessageType),
    (∀ item ∈ items, Tidy type item) → normalItems type items = items
  | [], _, _ => rfl
  | item :: items, type, h => by
      obtain ⟨hitem, hitems⟩ := List.forall_mem_cons.mp h
      rw [normalItems, normal_of_tidy item type hitem, normalItems_of_tidy items type hitems]

end

/-- **The tidy values are those that normalising leaves as they are.** -/
theorem normal_eq_self_iff : normal type value = value ↔ Tidy type value := by
  refine ⟨fun h => ?_, normal_of_tidy value type⟩
  rw [← h]
  exact tidy_normal type value

/-! ### What is left of a message -/

/-- Whether what is under a key is no part of a message: the key names no field, or a map. -/
def outside (type : MessageType) (key : String) : Bool :=
  (type.fieldByKey? key).all (·.kind = .flags)

/-- What is left of the members of a message: those that are not `null`, under the same keys and
in the same order, with the same values where these are no part of a message. -/
structure Tidied (type : MessageType) (members tidied : List (String × Json)) : Prop where
  given : ∀ member ∈ tidied, member.2.isNull = false
  keys : tidied.map (·.1) = (members.filter fun member => !member.2.isNull).map (·.1)
  same : (tidied.filter fun member => outside type member.1)
    = members.filter fun member => outside type member.1 && !member.2.isNull

theorem kindUnder_of_outside {key : String} (h : outside type key = true) :
    kindUnder type key = .flags := by
  unfold outside at h
  cases hspec : type.fieldByKey? key with
  | none => exact kindUnder_of_none hspec
  | some spec =>
      rw [hspec] at h
      exact (kindUnder_of_some hspec).trans (of_decide_eq_true h)

theorem tidied_normalMembers (type : MessageType) (members : List (String × Json)) :
    Tidied type members (normalMembers type members) where
  given := by
    intro member hmember
    obtain ⟨source, -, hgiven, rfl⟩ := mem_normalMembers_iff.mp hmember
    exact (isNull_normalValue _ _).trans hgiven
  keys := by
    rw [normalMembers_eq_map, List.map_map]
    rfl
  same := by
    rw [normalMembers_eq_map, List.filter_map, List.filter_filter]
    refine (List.map_congr_left fun member hmember => ?_).trans (List.map_id' _)
    have houtside : outside type member.1 = true :=
      (Bool.and_eq_true _ _ ▸ (List.mem_filter.mp hmember).2).1
    rw [kindUnder_of_outside houtside, normalValue_flags]

/-! ### What is left of a sequence -/

/-- What is left of the elements of a sequence: each is the same as before, or its normal form. -/
def Normalised (items tidied : List Json) : Prop :=
  List.Forall₂ (fun item left => left = item ∨ ∃ type, left = normal type item) items tidied

theorem normalised_map (kind : FieldKind) (items : List Json) :
    Normalised items (items.map (normalValue (elementKind kind))) := by
  refine List.forall₂_map_right_iff.mpr (List.forall₂_same.mpr fun item _ => ?_)
  cases kind with
  | repeated inner => exact .inr ⟨inner, normalValue_message inner item⟩
  | _ => exact .inl (normalValue_flags item)

theorem isNull_of_sequenceAt {path : List Json.Step} {items : List Json}
    (h : value.SequenceAt path items) : value.isNull = false := by
  cases h <;> rfl

theorem exists_sequenceAt_normalValue {path : List Json.Step} {items : List Json}
    (h : value.SequenceAt path items) (kind : FieldKind) :
    ∃ tidied, (normalValue kind value).SequenceAt path tidied ∧ Normalised items tidied := by
  induction h generalizing kind with
  | here =>
      rw [normalValue_array]
      exact ⟨_, .here, normalised_map kind _⟩
  | member hmember hvalue ih =>
      -- A value with a sequence in it is not `null`, so its member stays.
      obtain ⟨normed, inside, hnormed, hmember'⟩ :=
        exists_member_normalValue hmember (isNull_of_sequenceAt hvalue) kind
      obtain ⟨tidied, htidied, hnormalised⟩ := ih inside
      rw [hnormed]
      exact ⟨tidied, .member hmember' htidied, hnormalised⟩
  | element hitem _ ih =>
      obtain ⟨tidied, htidied, hnormalised⟩ := ih (elementKind kind)
      have hitem' := congrArg (Option.map (normalValue (elementKind kind))) hitem
      rw [← List.getElem?_map] at hitem'
      rw [normalValue_array]
      exact ⟨tidied, .element hitem' htidied, hnormalised⟩

theorem exists_of_sequenceAt_normalValue {path : List Json.Step} {tidied : List Json}
    (h : (normalValue kind value).SequenceAt path tidied) :
    ∃ items, value.SequenceAt path items ∧ Normalised items tidied := by
  generalize hnormed : normalValue kind value = normed at h
  induction h generalizing kind value with
  | here =>
      obtain ⟨items, rfl, rfl⟩ := exists_of_normalValue_array hnormed
      exact ⟨items, .here, normalised_map kind items⟩
  | member hmember _ ih =>
      obtain ⟨members, source, inside, rfl, hsource, hsame⟩ :=
        exists_of_normalValue_object hnormed hmember
      obtain ⟨items, hitems, hnormalised⟩ := ih hsame
      exact ⟨items, .member hsource hitems, hnormalised⟩
  | element hitem _ ih =>
      obtain ⟨items, rfl, rfl⟩ := exists_of_normalValue_array hnormed
      rw [List.getElem?_map] at hitem
      obtain ⟨item, hsource, rfl⟩ := Option.map_eq_some_iff.mp hitem
      obtain ⟨found, hfound, hnormalised⟩ := ih rfl
      exact ⟨found, .element hsource hfound, hnormalised⟩

/-! ### Normal forms -/

/-- A message as a JSON value is in normal form. -/
theorem normal_toJson (message : Message) :
    normal message.type message.toJson = message.toJson := by
  rw [toJson_eq, normal, message.canonicalMembers.normalMembers]

/-- **Normalising is done in one pass, leaves a message as a JSON value as it is, and changes a
value in nothing else than it is for.** Of every object that stands for a message all members but
those that are `null` are left, in their order, and what is no part of a message is the same; every
sequence has its elements in their order, each the same or in normal form. -/
theorem normal_tidies :
    (∀ type value, normal type (normal type value) = normal type value)
      ∧ (∀ message : Message, normal message.type message.toJson = message.toJson)
      ∧ ∀ type value,
        (∀ path inner, Matched (Tidied inner) (ObjectAt type value path inner)
          (ObjectAt type (normal type value) path inner))
        ∧ ∀ path, Matched Normalised (value.SequenceAt path)
          ((normal type value).SequenceAt path) := by
  refine ⟨fun type value => normal_eq_self_iff.mpr (tidy_normal type value), normal_toJson,
    fun type value => ⟨fun path inner => ⟨?_, ?_⟩, fun path => ⟨?_, ?_⟩⟩⟩
  · intro members hmembers
    exact ⟨_, objectAt_normal hmembers, tidied_normalMembers inner members⟩
  · intro tidied htidied
    obtain ⟨members, hmembers, rfl⟩ := exists_of_objectAt_normal htidied
    exact ⟨members, hmembers, tidied_normalMembers inner members⟩
  · intro items hitems
    rw [← normalValue_message]
    exact exists_sequenceAt_normalValue hitems (.message type)
  · intro tidied htidied
    rw [← normalValue_message] at htidied
    exact exists_of_sequenceAt_normalValue htidied

/-- A `null` goes from a message, and stays as an element, among votes and under a key that names no
field; a whole number becomes an integer in an integer field only. -/
example :
    normal .mempoolResponse (.object
        [("page", .null),
         ("transactionRecords", .array [.null, .object
            [("amount", .float (.ofInt 5)), ("id", .null),
             ("note", .object [("n", .null), ("x", .float (.ofInt 5))]),
             ("validators", .object [("v", .null)])]])])
      = .object
        [("transactionRecords", .array [.null, .object
            [("amount", .integer 5), ("note", .object [("n", .null), ("x", .float (.ofInt 5))]),
             ("validators", .object [("v", .null)])]])] := by
  rfl

end Message

end NodeView
