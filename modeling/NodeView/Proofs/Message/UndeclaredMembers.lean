import NodeView.Proofs.Message.Parts
import NodeView.Proofs.Message.Retained
/-!
# NodeView.Proofs.Message.UndeclaredMembers

What a lenient reading of a JSON value passes over, and what it does not.

Members whose key names no field of their message have no part in what is read: two values that
agree without them are read alike, as the same message or with the same error. A member whose key
names a field is never passed over, at whatever depth its message stands: the object that it is in
is read as a message of its own (`ObjectAt.exists_part`), so if the value is read at all, then the
member has a shape that its field admits (`admits_of_fieldsOfValue`).
-/

namespace NodeView

/-- Whether a value has a shape from which a field of this kind can be read. An integer may be
written as a number in any form, or as a text. -/
def FieldKind.admits : FieldKind → Json → Bool
  | .text, .string _ => true
  | .int64, .integer _ | .int64, .float _ | .int64, .string _ => true
  | .uint64, .integer _ | .uint64, .float _ | .uint64, .string _ => true
  | .uint32, .integer _ | .uint32, .float _ | .uint32, .string _ => true
  | .message _, .object _ | .flags, .object _ => true
  | .repeated _, .array _ => true
  | _, _ => false

namespace Message

/-- The members that a message declares: those whose key names one of its fields. -/
def declared : MemberTest := fun type key _ => (type.fieldByKey? key).isSome

theorem declared_keepsRead : declared.KeepsRead := by
  intro type key value h
  exact .inl (Option.isNone_iff_eq_none.mp (by simpa [declared] using h))

/-- What is read as the value of a field has a shape that the field admits. -/
theorem admits_of_fieldsOfValue {spec : FieldSpec} {value : Json} {fields : List Wire.Field}
    (h : fieldsOfValue spec (normalValue spec.kind value) = .ok fields) :
    spec.kind.admits value = true := by
  obtain ⟨number, name, jsonName, kind⟩ := spec
  cases kind <;> cases value <;> first
    | rfl
    | cases h
    -- A floating-point number stays one in a field that holds no integers.
    | simp [normalValue, normalScalar, wholeNumber?, fieldsOfValue, scalarOfJson] at h

/-- A value is not read if a member of one of its messages does not have the shape of its
field. -/
theorem ofJson_ne_ok_of_not_admits {type inner : MessageType} {policy : KeyPolicy} {value : Json}
    {path : List Step} {members : List (String × Json)} {key : String} {found : Json}
    {spec : FieldSpec} (hobject : ObjectAt type value path inner members)
    (hmember : (key, found) ∈ members) (hspec : inner.fieldByKey? key = some spec)
    (hnull : found.isNull = false) (hshape : spec.kind.admits found = false) (message : Message) :
    ofJson type policy value ≠ .ok message := by
  intro h
  obtain ⟨part, -, hpart⟩ := hobject.exists_part (ofJson_ok h)
  obtain ⟨front, mine, back, -, hmine, -⟩ := exists_of_member hpart hmember hspec hnull
  rw [admits_of_fieldsOfValue hmine] at hshape
  cases hshape

/-- **A lenient reading passes over exactly what a message does not declare.** Values that agree
without such members are read alike, as the same message or with the same error. A member that
is declared, and not `null`, is never passed over: if its shape is none that its field admits,
then the value is refused. -/
theorem ofJson_ignores_undeclared (type : MessageType) :
    (∀ value other, retained declared type value = retained declared type other →
        ofJson type .lenient value = ofJson type .lenient other)
      ∧ ∀ policy value path inner members key found spec,
        ObjectAt type value path inner members → (key, found) ∈ members →
        inner.fieldByKey? key = some spec → found.isNull = false →
        spec.kind.admits found = false →
        ∃ error, ofJson type policy value = .error error := by
  constructor
  · intro value other h
    show ofJsonLenient type value = ofJsonLenient type other
    rw [← ofJsonLenient_retained declared_keepsRead type value, h,
      ofJsonLenient_retained declared_keepsRead]
  · intro policy value path inner members key found spec hobject hmember hspec hnull hshape
    exact exists_error fun message =>
      ofJson_ne_ok_of_not_admits hobject hmember hspec hnull hshape message

/-- Undeclared members at three levels, of any shape, make no difference; a number for the name
of the token of the only transaction does. -/
theorem ofJson_ignores_undeclared_nested :
    ofJson .mempoolResponse .lenient
        (.object
          [("page", .null),
           ("transactionRecords", .array [.object
             [("fee", .array [.null]),
              ("token", .object [("name", .string "T"), ("scale", .object [])])]])])
      = ofJson .mempoolResponse .lenient
        (.object
          [("transactionRecords", .array [.object
             [("token", .object [("logo", .bool true), ("name", .string "T")]),
              ("version", .integer 1)]])])
      ∧ ∃ error, ofJson .mempoolResponse .lenient
        (.object
          [("transactionRecords", .array [.object [("token", .object [("name", .integer 1)])]])])
        = .error error := by
  constructor
  · exact (ofJson_ignores_undeclared .mempoolResponse).1 _ _ rfl
  · have htoken : ObjectAt .mempoolResponse
        (.object
          [("transactionRecords", .array [.object [("token", .object [("name", .integer 1)])]])])
        [⟨"transactionRecords", 0⟩, ⟨"token", 0⟩] .token [("name", .integer 1)] :=
      .record (.inl rfl) List.mem_cons_self rfl (.token List.mem_cons_self .root)
    exact (ofJson_ignores_undeclared .mempoolResponse).2 .lenient _ _ .token _ "name" (.integer 1)
      ⟨1, "name", "name", .text⟩ htoken List.mem_cons_self rfl rfl rfl

end Message

end NodeView
