import NodeView.Proofs.Wire.Locality
/-!
# NodeView.Proofs.Wire.Run

Loops over items, and the bytes cut into the occurrences of the items.

A loop that reads items up to a position succeeds exactly where the bytes before that position
are a run of items (`Run.readUntil_eq`, `exists_run_of_readUntil`). For a nested message this
settles what the late check of its length amounts to: the declared number of bytes is filled by
a run, and nothing behind it takes part (`readDelimited_eq_ok_iff`). A run that begins with a key is
taken apart into the value behind the key and a shorter run (`Run.exists_fieldBehind`).
-/

namespace NodeView.Wire

variable {α : Type} {item : Read α}

/-- The bytes are the occurrences of these values one after the other. -/
inductive Run (item : Read α) : List UInt8 → List α → Prop
  | nil : Run item [] []
  | cons {bytes rest : List UInt8} {value : α} {values : List α} (moves : bytes ≠ [])
      (takes : Takes item bytes value) (others : Run item rest values) :
      Run item (bytes ++ rest) (value :: values)

theorem Run.single {bytes : List UInt8} {value : α} (moves : bytes ≠ [])
    (takes : Takes item bytes value) : Run item bytes [value] := by
  simpa using Run.cons moves takes .nil

theorem Run.append {as bs : List UInt8} {vs ws : List α} (ha : Run item as vs)
    (hb : Run item bs ws) : Run item (as ++ bs) (vs ++ ws) := by
  induction ha with
  | nil => exact hb
  | cons moves takes _ ih =>
      rw [List.append_assoc]
      exact .cons moves takes ih

/-- What stands behind the first occurrence of a run is a run. -/
theorem Run.of_takes_append {bytes tail : List UInt8} {value : α} {all : List α}
    (takes : Takes item bytes value) (moves : bytes ≠ []) (h : Run item (bytes ++ tail) all) :
    ∃ values, all = value :: values ∧ Run item tail values := by
  generalize hinput : bytes ++ tail = input at h
  cases h with
  | nil => exact absurd (List.append_eq_nil_iff.mp hinput).1 moves
  | @cons front rest first values moves' takes' others =>
      -- Both occurrences start at the same place, so they are the same one.
      have hfirst := takes tail
      rw [hinput, takes' rest] at hfirst
      simp only [Except.ok.injEq, Prod.mk.injEq] at hfirst
      obtain ⟨rfl, hrest⟩ := hfirst
      have hbytes : rest = tail := congrArg Input.bytes hrest
      exact ⟨values, rfl, hbytes ▸ others⟩

/-- What stands behind a run that begins another run is a run. -/
theorem Run.of_append {as bs : List UInt8} {vs all : List α} (front : Run item as vs)
    (h : Run item (as ++ bs) all) : ∃ ws, all = vs ++ ws ∧ Run item bs ws := by
  induction front generalizing all with
  | nil => exact ⟨all, rfl, h⟩
  | cons moves takes _ ih =>
      rw [List.append_assoc] at h
      obtain ⟨values, rfl, hrest⟩ := Run.of_takes_append takes moves h
      obtain ⟨ws, rfl, hbs⟩ := ih hrest
      exact ⟨ws, rfl, hbs⟩

/-- A run of values begins with a run of the first of them and goes on with one of the others. -/
theorem Run.exists_append {bytes : List UInt8} {vs ws : List α} (run : Run item bytes (vs ++ ws)) :
    ∃ as bs, bytes = as ++ bs ∧ Run item as vs ∧ Run item bs ws := by
  induction vs generalizing bytes with
  | nil => exact ⟨[], bytes, rfl, .nil, run⟩
  | cons v vs ih =>
      cases run with
      | cons moves takes others =>
          obtain ⟨as, bs, rfl, ha, hb⟩ := ih others
          exact ⟨_, bs, (List.append_assoc ..).symm, .cons moves takes ha, hb⟩

/-- Readers that succeed alike have the same runs. -/
theorem Agree.run {other : Read α} (h : Agree item other) {bytes : List UInt8} {values : List α}
    (run : Run item bytes values) : Run other bytes values := by
  induction run with
  | nil => exact .nil
  | cons moves takes _ ih => exact .cons moves (h.takes takes) ih

/-! ### Loops -/

/-- A loop reads a run up to the position where it ends. -/
theorem Run.readUntil_eq {bytes : List UInt8} {values : List α} (run : Run item bytes values)
    (tail : List UInt8) (done : List α) :
    readUntil item tail.length done (.ofList (bytes ++ tail))
      = .ok (done.reverse ++ values, .ofList tail) := by
  induction run generalizing done with
  | nil =>
      rw [readUntil, if_pos (by simp)]
      simp
  | @cons bytes rest value values moves takes others ih =>
      have hbytes : 0 < bytes.length := List.length_pos_iff.mpr moves
      rw [readUntil, if_neg (by simp; omega), List.append_assoc, takes]
      simp only [Input.size_ofList, List.length_append]
      rw [if_pos (by omega), ih]
      simp

/-- What a loop over local items has read is a run of them. -/
theorem exists_run_of_readUntil (hitem : Local item) {stop : Nat} {done all : List α}
    {input rest : Input} (h : readUntil item stop done input = .ok (all, rest)) :
    ∃ bytes values, input.bytes = bytes ++ rest.bytes ∧ all = done.reverse ++ values
      ∧ Run item bytes values ∧ rest.size ≤ stop := by
  induction hsize : input.size using Nat.strongRecOn generalizing input done with
  | ind size ih =>
      rw [readUntil] at h
      split at h
      · rename_i hstop
        cases h
        exact ⟨[], [], rfl, by simp, .nil, hstop⟩
      · split at h
        · cases h
        · rename_i value after hafter
          split at h
          · rename_i hshorter
            obtain ⟨front, hfront, takes⟩ := hitem hafter
            obtain ⟨bytes, values, hbytes, rfl, run, hstop⟩ :=
              ih after.size (hsize ▸ hshorter) h rfl
            -- The loop goes on only where the item took something.
            have moves : front ≠ [] := by
              rintro rfl
              have hsame : input = after := Input.ext hfront
              exact Nat.lt_irrefl _ (hsame ▸ hshorter)
            refine ⟨front ++ bytes, value :: values, ?_, by simp, .cons moves takes run, hstop⟩
            rw [hfront, hbytes, List.append_assoc]
          · cases h

/-- A loop over local items uses up some bytes exactly if they are a run. -/
theorem readUntil_zero_eq_ok_iff (hitem : Local item) {bytes : List UInt8} {values : List α} :
    (readUntil item 0 [] (.ofList bytes)).map (·.1) = .ok values ↔ Run item bytes values := by
  constructor
  · intro h
    cases hloop : readUntil item 0 [] (.ofList bytes) with
    | error fault => rw [hloop] at h; cases h
    | ok result =>
        obtain ⟨all, rest⟩ := result
        rw [hloop] at h
        cases h
        obtain ⟨taken, values, htaken, rfl, run, hstop⟩ := exists_run_of_readUntil hitem hloop
        have hrest : rest.bytes = [] := by
          rw [← rest.size_eq] at hstop
          exact List.length_eq_zero_iff.mp (Nat.le_zero.mp hstop)
        rw [Input.bytes_ofList, hrest, List.append_nil] at htaken
        exact htaken ▸ run
  · intro run
    have hloop := run.readUntil_eq [] []
    rw [List.append_nil, List.length_nil] at hloop
    rw [hloop]
    rfl

/-- Behind a length, a run of so many bytes is read as the items of a message. -/
theorem Run.takes_readDelimited {length body : List UInt8} {values : List α}
    (run : Run item body values) (hlength : Takes readNumber length body.length) :
    Takes (readDelimited item) (length ++ body) values := by
  intro tail
  have hstop : (Input.ofList (body ++ tail)).size - body.length = tail.length := by simp
  rw [List.append_assoc, readDelimited, hlength]
  dsimp only
  rw [if_neg (by simp), hstop, run.readUntil_eq tail []]
  simp

/-- Behind a length stands a run of so many bytes, and nothing else makes a success. -/
theorem readDelimited_eq_ok_iff (hitem : Local item) {values : List α} {input rest : Input} :
    readDelimited item input = .ok (values, rest) ↔
      ∃ length body, input.bytes = length ++ body ++ rest.bytes
        ∧ Takes readNumber length body.length ∧ Run item body values := by
  constructor
  · intro h
    unfold readDelimited at h
    split at h
    · cases h
    · rename_i n content hlength
      obtain ⟨length, hlength, takes⟩ := readNumber_local hlength
      split at h
      · cases h
      · rename_i hfits
        split at h
        · cases h
        · rename_i items after hloop
          split at h
          · rename_i hend
            cases h
            obtain ⟨body, values, hbody, rfl, run, -⟩ := exists_run_of_readUntil hitem hloop
            -- The late check of the end says that the run fills the declared length.
            have hn : n = body.length := by
              have hsize := content.size_eq
              have hrest := rest.size_eq
              rw [hbody, List.length_append] at hsize
              omega
            refine ⟨length, body, ?_, hn ▸ takes, run⟩
            rw [hlength, hbody, List.append_assoc]
          · cases h
  · rintro ⟨length, body, hbytes, takes, run⟩
    have hinput : input = .ofList (length ++ body ++ rest.bytes) := Input.ext hbytes
    rw [hinput, run.takes_readDelimited takes rest.bytes, Input.ofList_bytes]

theorem readDelimited_local (hitem : Local item) : Local (readDelimited item) := by
  intro input values rest h
  obtain ⟨length, body, hbytes, takes, run⟩ := (readDelimited_eq_ok_iff hitem).mp h
  exact ⟨length ++ body, hbytes, run.takes_readDelimited takes⟩

/-! ### Entries -/

/-- What follows the key of a field of a map entry. -/
def entryFieldBehind (budget : Nat) (key : Key) : Read EntryField := fun rest =>
  match key.number with
  | 1 => (readText key.wire rest).map fun (s, rest) => (.key s, rest)
  | 2 => (readInteger key.wire rest).map fun (n, rest) => (.flag (n != 0), rest)
  | number => (skip budget key.wire number rest).map fun rest => (.unknown, rest)

theorem readEntryField_eq_andThen (budget : Nat) :
    readEntryField budget = Read.andThen readKey (entryFieldBehind budget) := by
  funext input
  unfold readEntryField Read.andThen
  cases readKey input with
  | error fault => rfl
  | ok result => rfl

theorem readEntryField_local (budget : Nat) : Local (readEntryField budget) := by
  rw [readEntryField_eq_andThen]
  refine readKey_local.andThen fun key => ?_
  unfold entryFieldBehind
  split
  · exact (readText_local _).map _
  · exact (readInteger_local _).map fun n => EntryField.flag (n != 0)
  · rw [← map_passing]
    exact (skip_local _ _ _).map _

theorem readEntry_local (budget : Nat) : Local (readEntry budget) := by
  cases budget with
  | zero => exact .fail _
  | succ budget => exact (readDelimited_local (readEntryField_local budget)).map _

/-! ### Fields of a message -/

section

variable {budget : Nat} {nested : MessageType → Read (List Field)}

theorem readValue_local (hnested : ∀ type, Local (nested type)) (spec : FieldSpec)
    (wire : WireType) : Local (readValue budget nested spec wire) := by
  unfold readValue
  split
  · exact (readText_local wire).map _
  · exact (readInteger_local wire).map fun n => Field.int64 spec.number (UInt64.ofNat n).toInt64
  · exact (readInteger_local wire).map fun n => Field.uint64 spec.number (UInt64.ofNat n)
  · exact (readInteger_local wire).map fun n => Field.uint32 spec.number (UInt32.ofNat n)
  · exact (readEntry_local budget).map fun entry => Field.entry spec.number entry.1 entry.2
  · exact expect_local wire .delimited ((hnested _).map (Field.message spec.number))
  · exact expect_local wire .delimited ((hnested _).map (Field.message spec.number))

/-- What follows the key of a field of a message. -/
def fieldBehind (budget : Nat) (nested : MessageType → Read (List Field)) (type : MessageType)
    (key : Key) : Read Field := fun rest =>
  match type.field? key.number with
  | none => (skip budget key.wire key.number rest).map fun rest => (.unknown key.number, rest)
  | some spec =>
    (readValue budget nested spec key.wire rest).mapError fun fault => fault.within type spec.name

theorem readFieldWith_eq_andThen (type : MessageType) :
    readFieldWith budget nested type = Read.andThen readKey (fieldBehind budget nested type) := by
  funext input
  unfold readFieldWith Read.andThen
  cases readKey input with
  | error fault => rfl
  | ok result =>
      simp only [MessageType.declaredField?_eq]
      rfl

theorem readFieldWith_local (hnested : ∀ type, Local (nested type)) (type : MessageType) :
    Local (readFieldWith budget nested type) := by
  rw [readFieldWith_eq_andThen]
  refine readKey_local.andThen fun key => ?_
  unfold fieldBehind
  split
  · rw [← map_passing]
    exact (skip_local _ _ _).map _
  · exact (readValue_local hnested _ _).mapError _

end

/-- The reader of the messages nested in one that may spend so much of the budget. -/
def readNested : (budget : Nat) → MessageType → Read (List Field)
  | 0, _ => fun _ => fail .tooDeep
  | budget + 1, type => readDelimited (readField budget type)

theorem readField_eq (budget : Nat) (type : MessageType) :
    readField budget type = readFieldWith budget (readNested budget) type := by
  cases budget <;> rfl

/-- **Reading a field is local**: bytes behind the field have no part in its success. -/
theorem readField_local (budget : Nat) (type : MessageType) : Local (readField budget type) := by
  induction budget generalizing type with
  | zero => exact readFieldWith_local (fun _ => .fail _) type
  | succ budget ih => exact readFieldWith_local (fun inner => readDelimited_local (ih inner)) type

/-- A field is at least one byte, that of its key. -/
theorem readField_ne_nil {budget : Nat} {type : MessageType} {bytes : List UInt8} {field : Field}
    (h : Takes (readField budget type) bytes field) : bytes ≠ [] := by
  rintro rfl
  have hnone : readField budget type (.ofList []) = fail .invalidVarint := by
    rw [readField_eq, readFieldWith_eq_andThen]
    rfl
  have hsome := h []
  rw [List.append_nil, hnone] at hsome
  cases hsome

/-- A message is read from some bytes exactly if they are a run of its fields. -/
theorem readFields_eq_ok_iff {type : MessageType} {bytes : List UInt8} {fields : List Field} :
    readFields type bytes = .ok fields ↔ Run (readField nestingBudget type) bytes fields :=
  readUntil_zero_eq_ok_iff (readField_local nestingBudget type)

/-! ### Taking a run of fields apart -/

/-- Of a run that begins with a key, what stands behind the key is read as its value, and what
stands behind the value is a run. -/
theorem Run.exists_fieldBehind {budget : Nat} {type : MessageType} {bytes rest : List UInt8}
    {key : Key} {fields : List Field} (run : Run (readField budget type) (bytes ++ rest) fields)
    (hkey : Takes readKey bytes key) :
    ∃ field others after, fields = field :: others
      ∧ fieldBehind budget (readNested budget) type key (.ofList rest) = .ok (field, .ofList after)
      ∧ Run (readField budget type) after others := by
  generalize hinput : bytes ++ rest = input at run
  cases run with
  | nil => exact absurd (List.append_eq_nil_iff.mp hinput).1 hkey.readKey_ne_nil
  | @cons taken after field others moves takes run =>
      have hfield := takes after
      rw [← hinput, readField_eq, readFieldWith_eq_andThen, Read.andThen, hkey rest] at hfield
      exact ⟨field, others, after, rfl, hfield, run⟩

theorem fieldBehind_eq_ok {budget : Nat} {nested : MessageType → Read (List Field)}
    {type : MessageType} {key : Key} {spec : FieldSpec} {input after : Input} {field : Field}
    (hspec : type.field? key.number = some spec)
    (h : fieldBehind budget nested type key input = .ok (field, after)) :
    readValue budget nested spec key.wire input = .ok (field, after) := by
  simp only [fieldBehind, hspec] at h
  cases hvalue : readValue budget nested spec key.wire input with
  | error fault => rw [hvalue] at h; cases h
  | ok result =>
      rw [hvalue] at h
      exact h

section

variable {budget : Nat} {nested : MessageType → Read (List Field)} {spec : FieldSpec}
  {payload : List UInt8}

theorem readValue_of_flags (hkind : spec.kind = .flags) (wire : WireType) :
    readValue budget nested spec wire
      = Read.map (fun entry => .entry spec.number entry.1 entry.2) (readEntry budget) := by
  funext input
  unfold readValue
  rw [hkind]
  rfl

theorem takes_readValue_of_flags (hkind : spec.kind = .flags) (wire : WireType)
    {entry : String × Bool} (h : Takes (readEntry budget) payload entry) :
    Takes (readValue budget nested spec wire) payload (.entry spec.number entry.1 entry.2) := by
  rw [readValue_of_flags hkind]
  exact h.map fun entry => Field.entry spec.number entry.1 entry.2

/-- One message and an element of a sequence are read alike. -/
theorem readValue_of_message {inner : MessageType}
    (hkind : spec.kind = .message inner ∨ spec.kind = .repeated inner) :
    readValue budget nested spec .delimited
      = Read.map (Field.message spec.number) (nested inner) := by
  funext input
  unfold readValue
  rcases hkind with hkind | hkind <;> (rw [hkind]; rfl)

theorem takes_readValue_of_message {inner : MessageType}
    (hkind : spec.kind = .message inner ∨ spec.kind = .repeated inner) {fields : List Field}
    (h : Takes (nested inner) payload fields) :
    Takes (readValue budget nested spec .delimited) payload (.message spec.number fields) := by
  rw [readValue_of_message hkind]
  exact h.map (Field.message spec.number)

end

/-- The fields of a nested message that was read. -/
theorem exists_nested_of_readValue {budget : Nat} {nested : MessageType → Read (List Field)}
    {spec : FieldSpec} {inner : MessageType} {input after : Input} {field : Field}
    (hkind : spec.kind = .message inner ∨ spec.kind = .repeated inner)
    (h : readValue budget nested spec .delimited input = .ok (field, after)) :
    ∃ fields, nested inner input = .ok (fields, after) ∧ field = .message spec.number fields := by
  rw [readValue_of_message hkind] at h
  obtain ⟨fields, hfields, rfl⟩ := Read.map_eq_ok_iff.mp h
  exact ⟨fields, hfields, rfl⟩

/-- Behind its length, a nested message that was read is a run of so many bytes. -/
theorem exists_run_take_of_readDelimited (hitem : Local item) {length rest : List UInt8}
    {size : Nat} {values : List α} {after : Input} (hlength : Takes readNumber length size)
    (h : readDelimited item (.ofList (length ++ rest)) = .ok (values, after)) :
    Run item (rest.take size) values ∧ after = .ofList (rest.drop size) := by
  obtain ⟨length', body, hbytes, hlength', run⟩ := (readDelimited_eq_ok_iff hitem).mp h
  -- The length is read from the same place both times.
  have hsame : readNumber (.ofList (length ++ rest))
      = .ok (body.length, .ofList (body ++ after.bytes)) := by
    rw [Input.bytes_ofList, List.append_assoc] at hbytes
    rw [hbytes]
    exact hlength' _
  rw [hlength rest] at hsame
  simp only [Except.ok.injEq, Prod.mk.injEq] at hsame
  obtain ⟨rfl, hrest⟩ := hsame
  have hbody : rest = body ++ after.bytes := congrArg Input.bytes hrest
  rw [hbody, List.take_left, List.drop_left, Input.ofList_bytes]
  exact ⟨run, rfl⟩

end NodeView.Wire
