import NodeView.Proofs.Message.Occurrences
import NodeView.Proofs.Wire.Skipping
/-!
# NodeView.Proofs.Message.UndeclaredFields

A field more that is not declared where it stands.

`Inserted` says that a field was put between two fields of a message, of a message nested in it,
or of a map entry, and that the lengths around the place now count it too. If the budget that is
left at this place allows for the depth of the field, the longer bytes are read as the same fields
as before, but for the ones that are not declared (`Inserted.run`), and those have no part in the
message (`Message.ofFields_prunedFields`). If the field is too deep, reading gets to it past all
that stands in front and refuses it there (`Inserted.stops`).
-/

namespace NodeView

open Wire (Field)

/-! ### Fields that are declared -/

namespace Wire

mutual

/-- A field without the undeclared ones nested in it. -/
def Field.pruned : Field → Field
  | .message n fields => .message n (prunedFields fields)
  | field => field

/-- Some fields without the undeclared ones, at any level. -/
def prunedFields : List Field → List Field
  | [] => []
  | .unknown _ :: fields => prunedFields fields
  | field :: fields => field.pruned :: prunedFields fields

end

@[simp] theorem prunedFields_append (as bs : List Field) :
    prunedFields (as ++ bs) = prunedFields as ++ prunedFields bs := by
  induction as with
  | nil => rfl
  | cons a as ih => cases a <;> simp [prunedFields, ih]

theorem prunedFields_message (number : Nat) (inner fields : List Field) :
    prunedFields (.message number inner :: fields)
      = .message number (prunedFields inner) :: prunedFields fields := rfl

end Wire

open Wire (prunedFields)

theorem Token.foldl_absorb_prunedFields (fields : List Field) (token : Token) :
    (prunedFields fields).foldl absorb token = fields.foldl absorb token := by
  induction fields generalizing token with
  | nil => rfl
  | cons field fields ih => cases field <;> exact ih _

/-- A transaction absorbs a nested message as it does without the undeclared fields in it. -/
theorem TransactionRecord.absorb_message_prunedFields (record : TransactionRecord) (number : Nat)
    (inner : List Field) :
    record.absorb (.message number (prunedFields inner))
      = record.absorb (.message number inner) := by
  by_cases htoken : number = 6
  · subst htoken
    simp only [absorb, Token.foldl_absorb_prunedFields]
  · simp [absorb, htoken]

theorem TransactionRecord.foldl_absorb_prunedFields (fields : List Field)
    (record : TransactionRecord) :
    (prunedFields fields).foldl absorb record = fields.foldl absorb record := by
  induction fields generalizing record with
  | nil => rfl
  | cons field fields ih =>
      cases field with
      | message number inner =>
          rw [Wire.prunedFields_message, List.foldl_cons, ih, absorb_message_prunedFields]
          rfl
      | _ => exact ih _

theorem NodeTypeResponse.foldl_absorb_prunedFields (fields : List Field)
    (response : NodeTypeResponse) :
    (prunedFields fields).foldl absorb response = fields.foldl absorb response := by
  induction fields generalizing response with
  | nil => rfl
  | cons field fields ih => cases field <;> exact ih _

theorem MempoolResponse.record?_message_prunedFields (number : Nat) (inner : List Field) :
    record? (.message number (prunedFields inner)) = record? (.message number inner) := by
  by_cases hrecord : number = 1
  · subst hrecord
    simp only [record?, TransactionRecord.foldl_absorb_prunedFields]
  · simp [record?, hrecord]

theorem MempoolResponse.filterMap_prunedFields (fields : List Field) :
    (prunedFields fields).filterMap record? = fields.filterMap record? := by
  induction fields with
  | nil => rfl
  | cons field fields ih =>
      cases field with
      | message number inner =>
          rw [Wire.prunedFields_message, List.filterMap_cons, List.filterMap_cons,
            record?_message_prunedFields, ih]
      | _ => exact ih

/-- What a message does not declare has no part in it, at any level. -/
theorem Message.ofFields_prunedFields (type : MessageType) (fields : List Field) :
    ofFields type (prunedFields fields) = ofFields type fields := by
  cases type with
  | nodeTypeRequest | mempoolRequest => rfl
  | nodeTypeResponse => simp only [ofFields, NodeTypeResponse.foldl_absorb_prunedFields]
  | mempoolResponse => simp only [ofFields, MempoolResponse.filterMap_prunedFields]
  | transactionRecord => simp only [ofFields, TransactionRecord.foldl_absorb_prunedFields]
  | token => simp only [ofFields, Token.foldl_absorb_prunedFields]

theorem Wire.entryOfFields_unknown (front back : List EntryField) :
    entryOfFields (front ++ .unknown :: back) = entryOfFields (front ++ back) := by
  simp only [entryOfFields, List.foldl_append, List.foldl_cons, absorbEntry]

/-! ### One field more -/

namespace Wire

/-- The bytes `more` are those of a message with the bytes `extra` of a field with this number put
in between two of its fields, and with the lengths around the place adjusted. The place is in the
message itself, in a map entry, or in a nested message, so many levels deep; and the number is
not declared there. -/
inductive Inserted (extra : List UInt8) (number : Nat) : (budget level : Nat) → MessageType →
    (bytes more : List UInt8) → Prop
  | here {budget : Nat} {type : MessageType} {front back : List UInt8} {fields : List Field}
      (run : Run (readField budget type) front fields) (hnone : type.field? number = none) :
      Inserted extra number budget 0 type (front ++ back) (front ++ (extra ++ back))
  | entry {budget : Nat} {type : MessageType}
      {front key length length' left right back : List UInt8} {fields : List Field} {outer : Nat}
      {wire : WireType} {spec : FieldSpec} {values : List EntryField}
      (run : Run (readField (budget + 1) type) front fields)
      (hkey : SpellsKey key ⟨outer, wire⟩) (hspec : type.field? outer = some spec)
      (hkind : spec.kind = .flags) (hleft : Run (readEntryField budget) left values)
      (hne : number ≠ 1) (hne' : number ≠ 2)
      (hlength : SpellsNumber length (left ++ right).length)
      (hlength' : SpellsNumber length' (left ++ (extra ++ right)).length) :
      Inserted extra number (budget + 1) 1 type
        (front ++ (key ++ (length ++ ((left ++ right) ++ back))))
        (front ++ (key ++ (length' ++ ((left ++ (extra ++ right)) ++ back))))
  | nested {budget level : Nat} {type inner : MessageType}
      {front key length length' body body' back : List UInt8} {fields : List Field} {outer : Nat}
      {spec : FieldSpec} (run : Run (readField (budget + 1) type) front fields)
      (hkey : SpellsKey key ⟨outer, .delimited⟩) (hspec : type.field? outer = some spec)
      (hkind : spec.kind = .message inner ∨ spec.kind = .repeated inner)
      (hinner : Inserted extra number budget level inner body body')
      (hlength : SpellsNumber length body.length) (hlength' : SpellsNumber length' body'.length) :
      Inserted extra number (budget + 1) (level + 1) type
        (front ++ (key ++ (length ++ (body ++ back))))
        (front ++ (key ++ (length' ++ (body' ++ back))))

variable {extra bytes more : List UInt8} {number depth budget level : Nat} {type : MessageType}

/-- A run with a key in the middle has the value behind the key, and goes on behind the value. -/
theorem Run.exists_value {front key rest : List UInt8} {fields all : List Field} {outer : Key}
    {spec : FieldSpec} (hfront : Run (readField budget type) front fields)
    (run : Run (readField budget type) (front ++ (key ++ rest)) all)
    (hkey : SpellsKey key outer) (hspec : type.field? outer.number = some spec) :
    ∃ field others after, all = fields ++ field :: others
      ∧ readValue budget (readNested budget) spec outer.wire (.ofList rest)
        = .ok (field, .ofList after)
      ∧ Run (readField budget type) after others := by
  obtain ⟨_, rfl, behind⟩ := hfront.of_append run
  obtain ⟨field, others, after, rfl, hfield, back⟩ := behind.exists_fieldBehind hkey.takes
  exact ⟨field, others, after, rfl, fieldBehind_eq_ok hspec hfield, back⟩

/-- A value behind its key may stand between two runs. -/
theorem Run.with_value {front key payload back : List UInt8} {fields others : List Field}
    {outer : Key} {spec : FieldSpec} {field : Field}
    (hfront : Run (readField budget type) front fields) (hkey : SpellsKey key outer)
    (hspec : type.field? outer.number = some spec)
    (hvalue : Takes (readValue budget (readNested budget) spec outer.wire) payload field)
    (hback : Run (readField budget type) back others) :
    Run (readField budget type) (front ++ (key ++ (payload ++ back)))
      (fields ++ field :: others) := by
  have hfield := takes_readField_of_key hkey.takes hspec hvalue
  rw [← List.append_assoc key]
  exact hfront.append (.cons (readField_ne_nil hfield) hfield hback)

/-- An entry of a map is the same entry with a field more that it does not declare. -/
theorem takes_readEntry_inserted {length length' left right back after : List UInt8}
    {values : List EntryField} {entry : String × Bool} (hextra : SpellsField number depth extra)
    (hdepth : depth ≤ budget) (hne : number ≠ 1) (hne' : number ≠ 2)
    (hleft : Run (readEntryField budget) left values)
    (hlength : SpellsNumber length (left ++ right).length)
    (hlength' : SpellsNumber length' (left ++ (extra ++ right)).length)
    (h : readEntry (budget + 1) (.ofList (length ++ ((left ++ right) ++ back)))
      = .ok (entry, .ofList after)) :
    after = back
      ∧ Takes (readEntry (budget + 1)) (length' ++ (left ++ (extra ++ right))) entry := by
  obtain ⟨all, hall, rfl⟩ := Read.map_eq_ok_iff.mp h
  obtain ⟨hbody, hafter⟩ :=
    exists_run_take_of_readDelimited (readEntryField_local budget) hlength.takes hall
  rw [List.take_left] at hbody
  rw [List.drop_left] at hafter
  obtain ⟨rights, rfl, hright⟩ := hleft.of_append hbody
  have hmore := hleft.append
    (.cons hextra.ne_nil (hextra.takes_readEntryField hne hne' hdepth) hright)
  have takes := (hmore.takes_readDelimited hlength'.takes).map entryOfFields
  rw [entryOfFields_unknown] at takes
  exact ⟨congrArg Input.bytes hafter, takes⟩

/-- Within the budget that is left at its place, a field more leaves the declared fields as they
are. -/
theorem Inserted.run (h : Inserted extra number budget level type bytes more)
    (hextra : SpellsField number depth extra) (hdepth : depth ≤ budget - level)
    {all : List Field} (run : Run (readField budget type) bytes all) :
    ∃ others, Run (readField budget type) more others ∧ prunedFields others = prunedFields all := by
  induction h generalizing all with
  | here front hnone =>
      obtain ⟨others, rfl, back⟩ := front.of_append run
      have takes := hextra.takes_readField hnone hdepth
      exact ⟨_, front.append (.cons hextra.ne_nil takes back), by simp [prunedFields]⟩
  | entry front hkey hspec hkind hleft hne hne' hlength hlength' =>
      rw [Nat.add_sub_cancel] at hdepth
      obtain ⟨field, others, after, rfl, hvalue, back⟩ := front.exists_value run hkey hspec
      rw [readValue_of_flags hkind] at hvalue
      obtain ⟨entry, hentry, rfl⟩ := Read.map_eq_ok_iff.mp hvalue
      obtain ⟨rfl, takes⟩ :=
        takes_readEntry_inserted hextra hdepth hne hne' hleft hlength hlength' hentry
      have hrun := front.with_value hkey hspec (takes_readValue_of_flags hkind _ takes) back
      exact ⟨_, by simpa only [List.append_assoc] using hrun, rfl⟩
  | @nested budget _ _ inner _ _ _ _ _ _ _ _ _ _ front hkey hspec hkind _ hlength hlength' ih =>
      obtain ⟨field, others, after, rfl, hvalue, back⟩ := front.exists_value run hkey hspec
      obtain ⟨fields, hfields, rfl⟩ := exists_nested_of_readValue hkind hvalue
      obtain ⟨hbody, hafter⟩ :=
        exists_run_take_of_readDelimited (readField_local budget inner) hlength.takes hfields
      rw [List.take_left] at hbody
      rw [List.drop_left] at hafter
      obtain rfl : after = _ := congrArg Input.bytes hafter
      obtain ⟨fields', hmore, hpruned⟩ := ih (by omega) hbody
      have takes : Takes (readNested (budget + 1) inner) _ fields' :=
        hmore.takes_readDelimited hlength'.takes
      have hrun := front.with_value hkey hspec (takes_readValue_of_message hkind takes) back
      refine ⟨_, by simpa only [List.append_assoc] using hrun, ?_⟩
      simp only [prunedFields_append, prunedFields_message, hpruned]

/-- An entry of a map is refused with a field more that is too deep. -/
theorem refuses_readEntry_inserted {length left right : List UInt8} {values : List EntryField}
    (hextra : SpellsField number depth extra) (hdepth : budget < depth) (hne : number ≠ 1)
    (hne' : number ≠ 2) (hleft : Run (readEntryField budget) left values)
    (hlength : SpellsNumber length (left ++ (extra ++ right)).length) :
    Refuses (readEntry (budget + 1)) (length ++ (left ++ (extra ++ right))) .tooDeep := by
  have hstops := hleft.stops hextra.ne_nil (hextra.refuses_readEntryField hne hne' hdepth)
  have hbody := hstops.append right
  rw [List.append_assoc] at hbody
  exact (hbody.refuses_readDelimited hlength.takes).map entryOfFields

/-- A value that is refused behind its key ends the loop that reads the fields. -/
theorem Run.stops_value {front key payload : List UInt8} {fields : List Field} {outer : Key}
    {spec : FieldSpec} {cause : Cause} (hfront : Run (readField budget type) front fields)
    (hkey : SpellsKey key outer) (hspec : type.field? outer.number = some spec)
    (hvalue : Refuses (readValue budget (readNested budget) spec outer.wire) payload cause)
    (back : List UInt8) :
    Stops (readField budget type) (front ++ (key ++ (payload ++ back))) cause := by
  have hbehind : Refuses (fieldBehind budget (readNested budget) type outer) payload cause := by
    unfold fieldBehind
    rw [hspec]
    exact hvalue.within type spec.name
  have hfield : Refuses (readField budget type) (key ++ payload) cause := by
    rw [readField_eq, readFieldWith_eq_andThen]
    exact .behind hkey.takes hbehind
  have hne : key ++ payload ≠ [] := by simp [hkey.takes.readKey_ne_nil]
  simpa only [List.append_assoc] using (hfront.stops hne hfield).append back

/-- Beyond the budget that is left at its place, a field more is refused. -/
theorem Inserted.stops (h : Inserted extra number budget level type bytes more)
    (hextra : SpellsField number depth extra) (hdepth : budget - level < depth) :
    Stops (readField budget type) more .tooDeep := by
  induction h with
  | here front hnone =>
      have hstops := front.stops hextra.ne_nil (hextra.refuses_readField hnone hdepth)
      simpa only [List.append_assoc] using hstops.append _
  | entry front hkey hspec hkind hleft hne hne' hlength hlength' =>
      rw [Nat.add_sub_cancel] at hdepth
      have hentry := refuses_readEntry_inserted hextra hdepth hne hne' hleft hlength'
      have hstops :=
        front.stops_value hkey hspec (refuses_readValue_of_flags hkind _ hentry)
      simpa only [List.append_assoc] using hstops _
  | @nested budget _ _ inner _ _ _ _ _ _ _ _ _ _ front hkey hspec hkind _ hlength hlength' ih =>
      have hread : Refuses (readNested (budget + 1) inner) _ .tooDeep :=
        (ih (by omega)).refuses_readDelimited hlength'.takes
      have hstops := front.stops_value hkey hspec (refuses_readValue_of_message hkind hread)
      simpa only [List.append_assoc] using hstops _

end Wire

namespace Message

open Wire (Inserted SpellsField)

/-- **An undeclared field leaves no trace.** Put between two fields at any level of a message that
is read, with any payload, it is passed over: the longer bytes are read as the same message, as
long as they are within the limit and the field nests no deeper than the budget that is left at
its place. If it nests deeper, that is what the longer bytes are refused for. -/
theorem decode_inserted {type : MessageType} {bytes more extra : List UInt8}
    {number depth level limit : Nat} {message : Message}
    (h : decode type bytes limit = .ok message) (hextra : SpellsField number depth extra)
    (hinserted : Inserted extra number Wire.nestingBudget level type bytes more) :
    (depth ≤ Wire.nestingBudget - level → more.length ≤ limit →
      decode type more limit = .ok message)
    ∧ (Wire.nestingBudget - level < depth → ∃ trail, decode type more limit
      = .error (if limit < more.length then .tooLarge more.length limit
        else .binary ⟨.tooDeep, trail⟩)) := by
  constructor
  · intro hdepth hsize
    obtain ⟨-, fields, hread, rfl⟩ := decode_eq_ok h
    obtain ⟨others, run, hpruned⟩ :=
      hinserted.run hextra hdepth (Wire.readFields_eq_ok_iff.mp hread)
    refine (decode_eq_ok_iff_run hsize).mpr ⟨others, run, ?_⟩
    rw [← ofFields_prunedFields, hpruned, ofFields_prunedFields]
  · intro hdepth
    obtain ⟨trail, hstops⟩ := hinserted.stops hextra hdepth [] 0 [] (Nat.le_refl _)
    have hread : Wire.readFields type more = .error ⟨.tooDeep, trail⟩ := by
      rw [List.append_nil] at hstops
      rw [Wire.readFields, hstops]
      rfl
    refine ⟨trail, ?_⟩
    rw [decode, hread]
    split <;> rfl

/-- A group with a number in it, put between the parts of a vote of a record in a response. -/
theorem decode_inserted_group :
    let record : TransactionRecord := { validators := .ofList [("a", true)] }
    let bytes : List UInt8 := [0x0a, 0x07, 0x4a, 0x05, 0x0a, 0x01, 0x61, 0x10, 0x01]
    let extra : List UInt8 := [0x1b, 0x08, 0x05, 0x1c]
    let more : List UInt8 :=
      [0x0a, 0x0b, 0x4a, 0x09, 0x0a, 0x01, 0x61, 0x1b, 0x08, 0x05, 0x1c, 0x10, 0x01]
    decode .mempoolResponse bytes 13 = .ok (.mempoolResponse ⟨[record]⟩)
      ∧ SpellsField 3 2 extra
      ∧ Inserted extra 3 Wire.nestingBudget 2 .mempoolResponse bytes more
      ∧ decode .mempoolResponse more 13 = .ok (.mempoolResponse ⟨[record]⟩) := by
  intro record bytes extra more
  have hread : decode .mempoolResponse bytes 13 = .ok (.mempoolResponse ⟨[record]⟩) :=
    decode_eq_ok_of_toOption (by decide +kernel)
  have hrecords : Wire.SpellsKey [0x0a] ⟨1, .delimited⟩ := .single (by decide) rfl (by decide)
  have hvotes : Wire.SpellsKey [0x4a] ⟨9, .delimited⟩ := .single (by decide) rfl (by decide)
  have hvalue : Wire.SpellsKey [0x08] ⟨1, .varint⟩ := .single (by decide) rfl (by decide)
  have hextra : SpellsField 3 2 extra := by
    have hclose : Wire.GroupFields 3 0 [0x1c] := .close (.single (by decide) rfl (by decide))
    have hgroup : Wire.GroupFields 3 1 ([0x08] ++ [0x05] ++ [0x1c]) :=
      .field hvalue (.varint (.single (by decide))) hclose
    exact .intro (.single (by decide) rfl (by decide)) (.group hgroup)
  have hpart : Wire.Run (Wire.readEntryField 98) [0x0a, 0x01, 0x61]
      (Wire.entryParts "a" false) := by
    have hbytes : Wire.entryBytes "a" false = [0x0a, 0x01, 0x61] := by decide +kernel
    rw [← hbytes]
    exact Wire.run_entryBytes (by decide +kernel) 98
  have hrecord : Inserted extra 3 99 1 .transactionRecord
      ([] ++ ([0x4a] ++ ([0x05] ++ (([0x0a, 0x01, 0x61] ++ [0x10, 0x01]) ++ []))))
      ([] ++ ([0x4a] ++ ([0x09] ++ (([0x0a, 0x01, 0x61] ++ (extra ++ [0x10, 0x01])) ++ [])))) :=
    .entry .nil hvotes rfl rfl hpart (by decide) (by decide)
      (.single (by decide)) (.single (by decide))
  have hinserted : Inserted extra 3 100 2 .mempoolResponse
      ([] ++ ([0x0a] ++ ([0x07] ++ (_ ++ [])))) ([] ++ ([0x0a] ++ ([0x0b] ++ (_ ++ [])))) :=
    .nested .nil hrecords rfl (.inr rfl) hrecord (.single (by decide)) (.single (by decide))
  exact ⟨hread, hextra, hinserted,
    (decode_inserted hread hextra hinserted).1 (by decide) (by decide)⟩

end Message

end NodeView
