import NodeView.Message.Decode
/-!
# NodeView.Proofs.Message.Retained

Values without some of the members of their messages.

A test says of each member of each message-level object of a value whether it is kept
(`retained`); what is under a key that names no field, and the contents of maps, are no messages
and stay as they are. Two passes over a value see its members, and each has its own condition
under which what is dropped makes no difference to it. Reading passes over members that are `null`
and over those that name no field (`fieldsOfJson_retained`); the search for an unknown key finds
nothing in a `null` under a key that names a field (`unknownKey?_retained`). Both traversals have
the shape of `retained`, so each proof has one case for each of its equations.
-/

namespace NodeView.Message

/-- Which members of the messages of a type are kept. -/
abbrev MemberTest := MessageType → String → Json → Bool

/-! ### Dropping members -/

mutual

/-- A value that stands for a message of this type, with the kept members only. -/
def retained (keep : MemberTest) (type : MessageType) : Json → Json
  | .object members => .object (retainedMembers keep type members)
  | value => value

/-- The kept members among those of a message of this type. -/
def retainedMembers (keep : MemberTest) (type : MessageType) :
    List (String × Json) → List (String × Json)
  | [] => []
  | (key, value) :: members =>
    if keep type key value then
      match type.fieldByKey? key with
      | none => (key, value) :: retainedMembers keep type members
      | some spec =>
        (key, retainedValue keep spec.kind value) :: retainedMembers keep type members
    else retainedMembers keep type members

/-- The value of a field of this kind, with the kept members of its messages only. -/
def retainedValue (keep : MemberTest) (kind : FieldKind) : Json → Json
  | .object members =>
    match kind with
    | .message type => .object (retainedMembers keep type members)
    | _ => .object members
  | .array items =>
    match kind with
    | .repeated type => .array (retainedItems keep type items)
    | _ => .array items
  | value => value

/-- Some values that stand for messages of this type, with the kept members only. -/
def retainedItems (keep : MemberTest) (type : MessageType) : List Json → List Json
  | [] => []
  | item :: items => retained keep type item :: retainedItems keep type items

end

variable {keep : MemberTest}

theorem isNull_retainedValue (kind : FieldKind) (value : Json) :
    (retainedValue keep kind value).isNull = value.isNull := by
  cases value with
  | object => cases kind <;> rfl
  | array => cases kind <;> rfl
  | _ => rfl

/-! ### Reading -/

/-- Reading does not see what is dropped: members that are `null`, or that name no field. -/
def MemberTest.KeepsRead (keep : MemberTest) : Prop :=
  ∀ type key value, keep type key value = false →
    type.fieldByKey? key = none ∨ value.isNull = true

/-- A member that is `null` is not read. -/
theorem fieldsOfMembers_normalMembers_null {type : MessageType} {seen : List Nat} {key : String}
    {value : Json} (hnull : value.isNull = true) (members : List (String × Json)) :
    fieldsOfMembers type seen (normalMembers type ((key, value) :: members))
      = fieldsOfMembers type seen (normalMembers type members) := by
  rw [normalMembers, if_pos hnull]

/-- A member that names no field is not read. -/
theorem fieldsOfMembers_normalMembers_none {type : MessageType} {seen : List Nat} {key : String}
    (hnone : type.fieldByKey? key = none) (value : Json) (members : List (String × Json)) :
    fieldsOfMembers type seen (normalMembers type ((key, value) :: members))
      = fieldsOfMembers type seen (normalMembers type members) := by
  rw [normalMembers]
  split
  · rfl
  · simp only [fieldsOfMembers, MessageType.declaredFieldByKey?_eq, hnone]

mutual

/-- A message is read alike without the members that are dropped. -/
theorem fieldsOfJson_retained (hkeep : keep.KeepsRead) (type : MessageType) :
    ∀ value : Json, fieldsOfJson type (normal type (retained keep type value))
      = fieldsOfJson type (normal type value)
  | .object members => fieldsOfMembers_retained hkeep type [] members
  | .null | .bool _ | .integer _ | .float _ | .string _ | .array _ => rfl

/-- The members of a message are read alike, whatever fields were seen before. -/
theorem fieldsOfMembers_retained (hkeep : keep.KeepsRead) (type : MessageType) (seen : List Nat) :
    ∀ members : List (String × Json),
      fieldsOfMembers type seen (normalMembers type (retainedMembers keep type members))
        = fieldsOfMembers type seen (normalMembers type members)
  | [] => rfl
  | (key, value) :: members => by
      rw [retainedMembers]
      split
      · split
        · rename_i hnone
          rw [fieldsOfMembers_normalMembers_none hnone, fieldsOfMembers_normalMembers_none hnone]
          exact fieldsOfMembers_retained hkeep type seen members
        · rename_i spec hspec
          cases hnull : value.isNull with
          | true =>
              rw [fieldsOfMembers_normalMembers_null (by rw [isNull_retainedValue, hnull]),
                fieldsOfMembers_normalMembers_null hnull]
              exact fieldsOfMembers_retained hkeep type seen members
          | false =>
              simp only [normalMembers, isNull_retainedValue, hnull, Bool.false_eq_true, if_false,
                hspec, fieldsOfMembers, MessageType.declaredFieldByKey?_eq,
                fieldsOfValue_retained hkeep spec value,
                fieldsOfMembers_retained hkeep type (spec.number :: seen) members]
      · rename_i hdropped
        rw [fieldsOfMembers_retained hkeep type seen members]
        -- What was seen so far is the same on both sides, since neither reads the member.
        rcases hkeep type key value (by simpa using hdropped) with hnone | hnull
        · rw [fieldsOfMembers_normalMembers_none hnone]
        · rw [fieldsOfMembers_normalMembers_null hnull]

/-- The value of a field is read alike. -/
theorem fieldsOfValue_retained (hkeep : keep.KeepsRead) (spec : FieldSpec) :
    ∀ value : Json, fieldsOfValue spec (normalValue spec.kind (retainedValue keep spec.kind value))
      = fieldsOfValue spec (normalValue spec.kind value)
  | .object members => by
      cases hkind : spec.kind with
      | message inner =>
          simp only [retainedValue, normalValue, fieldsOfValue, hkind,
            fieldsOfMembers_retained hkeep inner [] members]
      | _ => rfl
  | .array items => by
      cases hkind : spec.kind with
      | repeated inner =>
          simp only [retainedValue, normalValue, fieldsOfValue, hkind,
            fieldsOfItems_retained hkeep spec.number inner items]
      | _ => rfl
  | .null | .bool _ | .integer _ | .float _ | .string _ => rfl

/-- The elements of a sequence are read alike. -/
theorem fieldsOfItems_retained (hkeep : keep.KeepsRead) (number : Nat) (type : MessageType) :
    ∀ items : List Json,
      fieldsOfItems number type (normalItems type (retainedItems keep type items))
        = fieldsOfItems number type (normalItems type items)
  | [] => rfl
  | item :: items => by
      simp only [retainedItems, normalItems, fieldsOfItems, fieldsOfJson_retained hkeep type item,
        fieldsOfItems_retained hkeep number type items]

end

/-- What is dropped has no part in what a value is read as. -/
theorem ofJsonLenient_retained (hkeep : keep.KeepsRead) (type : MessageType) (value : Json) :
    ofJsonLenient type (retained keep type value) = ofJsonLenient type value := by
  rw [ofJsonLenient, ofJsonLenient, fieldsOfJson_retained hkeep]

/-! ### The search for unknown keys -/

/-- The search does not see what is dropped: members that are `null` and name a field. -/
def MemberTest.KeepsSearched (keep : MemberTest) : Prop :=
  ∀ type key value, keep type key value = false →
    (∃ spec, type.fieldByKey? key = some spec) ∧ value.isNull = true

theorem unknownKeyOfValue?_null {value : Json} (hnull : value.isNull = true) (kind : FieldKind) :
    unknownKeyOfValue? kind value = none := by
  cases value with
  | null => rfl
  | _ => cases hnull

mutual

/-- The search of a value comes to the same without the members that are dropped. -/
theorem unknownKey?_retained (hkeep : keep.KeepsSearched) (type : MessageType) :
    ∀ value : Json, unknownKey? type (retained keep type value) = unknownKey? type value
  | .object members => unknownKeyOfMembers?_retained hkeep type members
  | .null | .bool _ | .integer _ | .float _ | .string _ | .array _ => rfl

/-- The search of the members of a message comes to the same. -/
theorem unknownKeyOfMembers?_retained (hkeep : keep.KeepsSearched) (type : MessageType) :
    ∀ members : List (String × Json),
      unknownKeyOfMembers? type (retainedMembers keep type members)
        = unknownKeyOfMembers? type members
  | [] => rfl
  | (key, value) :: members => by
      rw [retainedMembers]
      split
      · split
        · rename_i hnone
          simp only [unknownKeyOfMembers?, hnone]
        · rename_i spec hspec
          simp only [unknownKeyOfMembers?, hspec, unknownKeyOfValue?_retained hkeep spec.kind value,
            unknownKeyOfMembers?_retained hkeep type members]
      · rename_i hdropped
        obtain ⟨⟨spec, hspec⟩, hnull⟩ := hkeep type key value (by simpa using hdropped)
        rw [unknownKeyOfMembers?_retained hkeep type members]
        simp only [unknownKeyOfMembers?, hspec, unknownKeyOfValue?_null hnull, Option.none_or]

/-- The search of the value of a field comes to the same. -/
theorem unknownKeyOfValue?_retained (hkeep : keep.KeepsSearched) (kind : FieldKind) :
    ∀ value : Json,
      unknownKeyOfValue? kind (retainedValue keep kind value) = unknownKeyOfValue? kind value
  | .object members => by
      cases kind with
      | message inner => exact unknownKeyOfMembers?_retained hkeep inner members
      | _ => rfl
  | .array items => by
      cases kind with
      | repeated inner => exact unknownKeyOfItems?_retained hkeep inner items
      | _ => rfl
  | .null | .bool _ | .integer _ | .float _ | .string _ => rfl

/-- The search of the elements of a sequence comes to the same. -/
theorem unknownKeyOfItems?_retained (hkeep : keep.KeepsSearched) (type : MessageType) :
    ∀ items : List Json,
      unknownKeyOfItems? type (retainedItems keep type items) = unknownKeyOfItems? type items
  | [] => rfl
  | item :: items => by
      simp only [retainedItems, unknownKeyOfItems?, unknownKey?_retained hkeep type item,
        unknownKeyOfItems?_retained hkeep type items]

end

/-- What the search does not see has no part in how a value is read under either policy. -/
theorem ofJson_retained (hkeep : keep.KeepsSearched) (type : MessageType) (policy : KeyPolicy)
    (value : Json) : ofJson type policy (retained keep type value) = ofJson type policy value := by
  have hread : keep.KeepsRead := fun type key value h => .inr (hkeep type key value h).2
  cases policy with
  | lenient => exact ofJsonLenient_retained hread type value
  | strict => simp only [ofJson, unknownKey?_retained hkeep, ofJsonLenient_retained hread]

end NodeView.Message
