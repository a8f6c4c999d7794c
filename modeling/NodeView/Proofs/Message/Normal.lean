import NodeView.Message.Normal
/-!
# NodeView.Proofs.Message.Normal

The normal form, member by member and element by element.

Normalising goes through members and elements in their order, by a kind for each (`kindUnder`,
`elementKind`). A message is normalised as the value of a field that is one
(`normalValue_message`), and what no field names as the contents of a map, which stay as they are
(`normalValue_flags`); so one traversal, `normalValue`, is all there is. Of the members only those
that are `null` go (`normalMembers_eq_map`), and elements stay where they are (`normalValue_array`).
-/

namespace NodeView.Message

/-- The kind by which the value under a key is normalised. What no field names is left alone, as
the contents of a map are. -/
def kindUnder (type : MessageType) (key : String) : FieldKind :=
  (type.fieldByKey? key).elim .flags (·.kind)

/-- The kind by which the elements of a sequence are normalised. -/
def elementKind : FieldKind → FieldKind
  | .repeated inner => .message inner
  | _ => .flags

variable {type : MessageType}

theorem kindUnder_of_some {key : String} {spec : FieldSpec}
    (h : type.fieldByKey? key = some spec) : kindUnder type key = spec.kind := by
  rw [kindUnder, h]
  rfl

theorem kindUnder_of_none {key : String} (h : type.fieldByKey? key = none) :
    kindUnder type key = .flags := by
  rw [kindUnder, h]
  rfl

/-! ### Values -/

/-- Only floating-point numbers are rewritten, and only to integers. -/
theorem normalScalar_eq_or (kind : FieldKind) (value : Json) :
    normalScalar kind value = value
      ∨ ∃ x n, value = .float x ∧ normalScalar kind value = .integer n := by
  cases value with
  | float x =>
      cases hwhole : wholeNumber? kind x with
      | none => exact .inl (by simp only [normalScalar, hwhole])
      | some n => exact .inr ⟨x, n, rfl, by simp only [normalScalar, hwhole]⟩
  | _ => exact .inl rfl

@[simp] theorem normalValue_flags (value : Json) : normalValue .flags value = value := by
  cases value with
  | float x => simp [normalValue, normalScalar, wholeNumber?]
  | _ => rfl

theorem normalValue_message (type : MessageType) (value : Json) :
    normalValue (.message type) value = normal type value := by
  cases value with
  | float x => simp [normalValue, normalScalar, wholeNumber?, normal]
  | _ => rfl

/-- A value is `null` before if it is afterwards. -/
theorem isNull_normalValue (kind : FieldKind) (value : Json) :
    (normalValue kind value).isNull = value.isNull := by
  cases value with
  | float x =>
      rcases normalScalar_eq_or kind (.float x) with hsame | ⟨_, n, -, hsame⟩
      · exact congrArg Json.isNull hsame
      · exact (congrArg Json.isNull hsame).trans rfl
  | object => cases kind <;> rfl
  | array => cases kind <;> rfl
  | _ => rfl

/-! ### Elements -/

theorem normalItems_eq_map (type : MessageType) (items : List Json) :
    normalItems type items = items.map (normal type) := by
  induction items with
  | nil => rfl
  | cons item items ih => rw [normalItems, ih, List.map_cons]

/-- The elements of a sequence are normalised where they are. -/
theorem normalValue_array (kind : FieldKind) (items : List Json) :
    normalValue kind (.array items) = .array (items.map (normalValue (elementKind kind))) := by
  have hsame : items.map (normalValue .flags) = items :=
    (List.map_congr_left fun item _ => normalValue_flags item).trans items.map_id'
  cases kind with
  | repeated inner =>
      have hitems := List.map_congr_left fun item (_ : item ∈ items) =>
        normalValue_message inner item
      rw [elementKind, hitems, normalValue, normalItems_eq_map]
  | _ => exact congrArg Json.array hsame.symm

theorem exists_of_normalValue_array {kind : FieldKind} {value : Json} {tidied : List Json}
    (h : normalValue kind value = .array tidied) :
    ∃ items, value = .array items ∧ items.map (normalValue (elementKind kind)) = tidied := by
  cases value with
  | array items =>
      rw [normalValue_array] at h
      cases h
      exact ⟨items, rfl, rfl⟩
  | object => cases kind <;> cases h
  | float x =>
      rcases normalScalar_eq_or kind (.float x) with hsame | ⟨_, n, -, hsame⟩ <;>
        cases hsame.symm.trans h
  | _ => cases h

/-! ### Members -/

/-- Members that are `null` are dropped, and the others normalised where they are. -/
theorem normalMembers_eq_map (type : MessageType) (members : List (String × Json)) :
    normalMembers type members
      = (members.filter fun member => !member.2.isNull).map fun member =>
          (member.1, normalValue (kindUnder type member.1) member.2) := by
  induction members with
  | nil => rfl
  | cons member members ih =>
      obtain ⟨key, value⟩ := member
      rw [normalMembers]
      cases hnull : value.isNull with
      | true => simp [hnull, ih]
      | false =>
          cases hspec : type.fieldByKey? key with
          | none => simp [hnull, ih, kindUnder_of_none hspec]
          | some spec => simp [hnull, ih, kindUnder_of_some hspec]

theorem exists_of_normal_object {value : Json} {normed : List (String × Json)}
    (h : normal type value = .object normed) :
    ∃ members, value = .object members ∧ normalMembers type members = normed := by
  cases value with
  | object members =>
      cases h
      exact ⟨members, rfl, rfl⟩
  | _ => cases h

theorem normalMembers_cons {key : String} {value : Json} (hgiven : value.isNull = false)
    (members : List (String × Json)) :
    normalMembers type ((key, value) :: members)
      = (key, normalValue (kindUnder type key) value) :: normalMembers type members := by
  simp [normalMembers_eq_map, hgiven]

theorem mem_normalMembers_iff {members : List (String × Json)} {normed : String × Json} :
    normed ∈ normalMembers type members
      ↔ ∃ member ∈ members, member.2.isNull = false
        ∧ (member.1, normalValue (kindUnder type member.1) member.2) = normed := by
  simp only [normalMembers_eq_map, List.mem_map, List.mem_filter, Bool.not_eq_true',
    and_assoc]

/-- The value of a member of an object is normalised by some kind, in whatever field the object
is. -/
theorem exists_member_normalValue {members : List (String × Json)} {key : String} {value : Json}
    (hmember : (key, value) ∈ members) (hgiven : value.isNull = false) (kind : FieldKind) :
    ∃ normed inside, normalValue kind (.object members) = .object normed
      ∧ (key, normalValue inside value) ∈ normed := by
  cases kind with
  | message type =>
      exact ⟨_, kindUnder type key, rfl, mem_normalMembers_iff.mpr ⟨_, hmember, hgiven, rfl⟩⟩
  | _ => exact ⟨members, .flags, rfl, by rwa [normalValue_flags]⟩

theorem exists_of_normalValue_object {kind : FieldKind} {value left : Json}
    {normed : List (String × Json)} {key : String} (h : normalValue kind value = .object normed)
    (hmember : (key, left) ∈ normed) :
    ∃ members source inside, value = .object members ∧ (key, source) ∈ members
      ∧ normalValue inside source = left := by
  cases value with
  | object members =>
      cases kind with
      | message type =>
          cases h
          obtain ⟨⟨key, source⟩, hsource, -, hsame⟩ := mem_normalMembers_iff.mp hmember
          cases hsame
          exact ⟨members, source, _, rfl, hsource, rfl⟩
      | _ =>
          cases h
          exact ⟨_, left, .flags, rfl, hmember, normalValue_flags left⟩
  | array => cases kind <;> cases h
  | float x =>
      rcases normalScalar_eq_or kind (.float x) with hsame | ⟨_, n, -, hsame⟩ <;>
        cases hsame.symm.trans h
  | _ => cases h

theorem mem_normalMembers {members : List (String × Json)} {key : String} {value : Json}
    {spec : FieldSpec} (hmember : (key, value) ∈ members)
    (hspec : type.fieldByKey? key = some spec) (hnull : value.isNull = false) :
    (key, normalValue spec.kind value) ∈ normalMembers type members :=
  mem_normalMembers_iff.mpr ⟨_, hmember, hnull, by rw [kindUnder_of_some hspec]⟩

/-- A member in normal form stands for one that is not `null`. -/
theorem exists_of_mem_normalMembers {members : List (String × Json)} {normed : String × Json}
    (h : normed ∈ normalMembers type members) :
    ∃ member ∈ members, member.1 = normed.1 ∧ member.2.isNull = false := by
  obtain ⟨member, hmember, hnull, rfl⟩ := mem_normalMembers_iff.mp h
  exact ⟨member, hmember, rfl, hnull⟩

theorem normalMembers_perm {members others : List (String × Json)} (h : members.Perm others)
    (type : MessageType) : (normalMembers type members).Perm (normalMembers type others) := by
  rw [normalMembers_eq_map, normalMembers_eq_map]
  exact (h.filter _).map _

end NodeView.Message
