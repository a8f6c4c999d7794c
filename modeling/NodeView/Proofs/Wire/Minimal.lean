import NodeView.Proofs.Wire.Written
/-!
# NodeView.Proofs.Wire.Minimal

No form is shorter than the one that is written.

Reading accepts more than is written: numbers with needless groups, entries and messages with
fields that are overwritten or not declared. None of it saves a byte. `Spends read cost` says
that whenever a reader succeeds it takes at least as many bytes as its value costs; every reader
spends the size of what it reads (`readField_spends`), so the fields of a message are together
no larger than the bytes they were read from (`sizeFields_le_of_readFields`).
-/

namespace NodeView.Wire

/-! ### Sizes of numbers -/

theorem lt_pow_varintSize (n : Nat) : n < 128 ^ varintSize n := by
  induction n using Nat.strongRecOn with
  | ind n ih =>
      rw [varintSize]
      split
      · omega
      · have hgroups := ih (n / 128) (by omega)
        rw [Nat.add_comm, Nat.pow_succ]
        omega

/-- The size of a number is the least number of groups, not zero, that hold it. -/
theorem varintSize_le {n groups : Nat} (hpos : 1 ≤ groups) (h : n < 128 ^ groups) :
    varintSize n ≤ groups := by
  induction groups generalizing n with
  | zero => omega
  | succ groups ih =>
      rw [varintSize]
      split
      · exact hpos
      · rename_i hhigh
        rw [Nat.pow_succ] at h
        have hgroups : 1 ≤ groups := by
          rcases Nat.eq_zero_or_pos groups with rfl | hpos
          · rw [Nat.pow_zero] at h
            omega
          · exact hpos
        have := ih hgroups (n := n / 128) (by omega)
        omega

theorem varintSize_mono {n m : Nat} (h : n ≤ m) : varintSize n ≤ varintSize m :=
  varintSize_le (varintSize_pos m) (Nat.lt_of_le_of_lt h (lt_pow_varintSize m))

/-- The groups of two numbers hold their sum. -/
theorem varintSize_add_le (n m : Nat) : varintSize (n + m) ≤ varintSize n + varintSize m := by
  have hn := varintSize_pos n
  have htwo : ∀ k, 2 ≤ 128 ^ varintSize k := fun k =>
    Nat.le_trans (by decide : 2 ≤ 128 ^ 1) (Nat.pow_le_pow_right (by decide) (varintSize_pos k))
  refine varintSize_le (by omega) ?_
  calc n + m < 128 ^ varintSize n + 128 ^ varintSize m :=
        Nat.add_lt_add (lt_pow_varintSize n) (lt_pow_varintSize m)
    _ ≤ 128 ^ varintSize n * 128 ^ varintSize m := Nat.add_le_mul (htwo n) (htwo m)
    _ = 128 ^ (varintSize n + varintSize m) := (Nat.pow_add _ _ _).symm

theorem delimitedSize_mono {n m : Nat} (h : n ≤ m) : delimitedSize n ≤ delimitedSize m :=
  Nat.add_le_add (varintSize_mono h) h

theorem delimitedSize_add_le (n m : Nat) :
    delimitedSize (n + m) ≤ delimitedSize n + delimitedSize m := by
  have := varintSize_add_le n m
  unfold delimitedSize
  omega

/-- How the payload is delimited has no part in the size of a key. -/
theorem Key.size_eq (number : Nat) (wire other : WireType) :
    varintSize (Key.mk number wire).toNat = varintSize (Key.mk number other).toNat := by
  have hsize : ∀ wire : WireType, varintSize (Key.mk number wire).toNat
      = if number < 16 then 1 else 1 + varintSize (number / 16) := by
    intro wire
    have hwire := wire.toNat_lt
    have hlow : 8 * number + wire.toNat < 128 ↔ number < 16 := by omega
    have hhigh : (8 * number + wire.toNat) / 128 = number / 16 := by omega
    rw [varintSize, Key.toNat, hhigh]
    simp only [hlow]
  rw [hsize, hsize]

/-- Once its key is paid for, only the payload of a field is left to pay. -/
theorem Key.payload_le (number : Nat) (wire other : WireType) (n : Nat) :
    varintSize (Key.mk number other).toNat + n - varintSize (Key.mk number wire).toNat ≤ n := by
  have hleft : varintSize (Key.mk number other).toNat + n
      - varintSize (Key.mk number wire).toNat = n := by
    rw [Key.size_eq number other wire, Nat.add_sub_cancel_left]
  exact Nat.le_of_eq hleft

/-! ### What readers spend -/

section

variable {α β : Type} {cost : α → Nat}

/-- For a value, the reader takes at least as many bytes as the value costs. -/
def Spends (read : Read α) (cost : α → Nat) : Prop :=
  ∀ ⦃input value rest⦄, read input = .ok (value, rest) → cost value + rest.size ≤ input.size

theorem Spends.takes_le {read : Read α} (h : Spends read cost) {bytes : List UInt8} {value : α}
    (takes : Takes read bytes value) : cost value ≤ bytes.length := by
  have hsize := h (takes [])
  rwa [List.append_nil, Input.size_ofList, Input.size_ofList, List.length_nil] at hsize

theorem Spends.fail (cause : Cause) (cost : α → Nat) :
    Spends (fun _ => Wire.fail cause : Read α) cost := by
  intro input value rest h
  cases h

/-- A local reader puts nothing back. -/
theorem Local.spends {read : Read α} (h : Local read) : Spends read fun _ => 0 := by
  intro input value rest hread
  obtain ⟨bytes, hbytes, -⟩ := h hread
  rw [← input.size_eq, ← rest.size_eq, hbytes, List.length_append, Nat.zero_add]
  exact Nat.le_add_left _ _

theorem Spends.map {read : Read α} (h : Spends read cost) (f : α → β) {total : β → Nat}
    (hle : ∀ a, total (f a) ≤ cost a) : Spends (read.map f) total := by
  intro input value rest hread
  obtain ⟨a, ha, rfl⟩ := Read.map_eq_ok_iff.mp hread
  have := h ha
  have := hle a
  omega

/-- The second reader pays for what the first one has left to pay. -/
theorem Spends.andThen {first : Read α} {next : α → Read β} {total : β → Nat}
    (hfirst : Spends first cost) (hnext : ∀ a, Spends (next a) fun b => total b - cost a) :
    Spends (first.andThen next) total := by
  intro input value rest h
  unfold Read.andThen at h
  split at h
  · cases h
  · rename_i a middle heq
    have hfront := hfirst heq
    have hback := hnext a h
    dsimp only at hback
    omega

theorem Spends.mapError {read : Read α} (h : Spends read cost) (f : Fault → Fault) :
    Spends (fun input => (read input).mapError f) cost := by
  intro input value rest hread
  refine @h input value rest ?_
  cases hmid : read input with
  | error fault =>
      simp only [hmid] at hread
      cases hread
  | ok result =>
      simp only [hmid] at hread
      cases hread
      rfl

theorem expect_spends {read : Read α} (found expected : WireType) (h : Spends read cost) :
    Spends (fun input =>
      match expect found expected with
      | .error fault => .error fault
      | .ok () => read input) cost := by
  by_cases heq : found = expected
  · simpa only [expect, if_pos heq] using h
  · simp only [expect, if_neg heq]
    exact .fail _ _

/-- What some values cost together. -/
def totalCost (cost : α → Nat) : List α → Nat
  | [] => 0
  | value :: values => cost value + totalCost cost values

/-- A run of items takes what they cost together. -/
theorem Run.totalCost_le {item : Read α} (h : Spends item cost) {bytes : List UInt8}
    {values : List α} (run : Run item bytes values) : totalCost cost values ≤ bytes.length := by
  induction run with
  | nil => exact Nat.le_refl _
  | cons _ takes _ ih =>
      rw [totalCost, List.length_append]
      exact Nat.add_le_add (h.takes_le takes) ih

end

/-! ### Numbers and texts -/

theorem readGroups_lt {groups n : Nat} {input rest : Input}
    (h : readGroups groups input = some (n, rest)) : n < 128 ^ (input.size - rest.size) := by
  induction groups generalizing n input rest with
  | zero => cases h
  | succ groups ih =>
      rw [readGroups] at h
      split at h
      · cases h
      · rename_i byte after hnext
        have hstep := Input.size_of_next? hnext
        split at h
        · rename_i hlow
          split at h
          · cases h
          · cases h
            have hone : input.size - rest.size = 1 := by omega
            rw [hone]
            exact hlow
        · split at h
          · cases h
          · rename_i high after' hrest
            cases h
            have hgroups := ih hrest
            have hless := size_of_readGroups hrest
            have hbyte := byte.toNat_lt
            have hmore : input.size - rest.size = after.size - rest.size + 1 := by omega
            rw [hmore, Nat.pow_succ]
            omega

theorem readNumber_spends : Spends readNumber varintSize := by
  intro input n rest h
  have hless := size_of_readNumber h
  unfold readNumber readVarint at h
  split at h
  · cases h
  · rename_i result heq
    cases h
    have := varintSize_le (by omega) (readGroups_lt heq)
    omega

theorem keyOfNumber_toNat {n : Nat} {input rest : Input} {key : Key}
    (h : keyOfNumber n input = .ok (key, rest)) : key.toNat = n ∧ rest = input := by
  unfold keyOfNumber at h
  split at h
  · cases h
  · split at h
    · cases h
    · rename_i wire hwire
      split at h
      · cases h
      · cases h
        have hbits : wire.toNat = n % 8 := by
          -- Each of the six wire types stands for its own number.
          generalize n % 8 = bits at hwire
          unfold WireType.ofNat? at hwire
          split at hwire <;> cases hwire <;> rfl
        refine ⟨?_, rfl⟩
        rw [Key.toNat, hbits]
        exact Nat.div_add_mod n 8

theorem readKey_spends : Spends readKey fun key => varintSize key.toNat := by
  rw [readKey_eq_andThen]
  refine readNumber_spends.andThen fun n input key rest h => ?_
  obtain ⟨hkey, rfl⟩ := keyOfNumber_toNat h
  have hpaid : varintSize key.toNat - varintSize n + rest.size = rest.size := by
    rw [hkey, Nat.sub_self, Nat.zero_add]
  exact Nat.le_of_eq hpaid

theorem readInteger_spends (wire : WireType) : Spends (readInteger wire) varintSize :=
  expect_spends wire .varint readNumber_spends

theorem utf8ByteSize_of_fromUTF8? {bytes : List UInt8} {s : String}
    (h : String.fromUTF8? bytes.toByteArray = some s) : s.utf8ByteSize = bytes.length := by
  unfold String.fromUTF8? at h
  split at h
  · cases h
    exact List.size_toByteArray
  · cases h

theorem Input.length_take {input : Input} {n : Nat} (h : n ≤ input.size) :
    (input.take n).length = n := by
  rw [← input.size_eq] at h
  rw [Input.take, List.length_take, Nat.min_eq_left h]

theorem readText_spends (wire : WireType) :
    Spends (readText wire) fun s => delimitedSize s.utf8ByteSize := by
  rw [funext (readText_eq wire)]
  refine expect_spends wire .delimited (readNumber_spends.andThen fun length => ?_)
  intro input s rest h
  unfold Read.andThen chunk at h
  split at h
  · cases h
  · rename_i bytes after hchunk
    split at hchunk
    · cases hchunk
    · rename_i hfits
      cases hchunk
      unfold textOfBytes at h
      split at h
      · cases h
      · rename_i text htext
        cases h
        have hlength : s.utf8ByteSize = length := by
          rw [utf8ByteSize_of_fromUTF8? htext, Input.length_take (Nat.le_of_not_lt hfits)]
        dsimp only
        rw [hlength, delimitedSize, Nat.add_sub_cancel_left, Input.size_drop]
        omega

/-! ### Items behind a length -/

theorem readDelimited_spends {α : Type} {cost : α → Nat} {item : Read α} (hlocal : Local item)
    (h : Spends item cost) :
    Spends (readDelimited item) fun values => delimitedSize (totalCost cost values) := by
  intro input values rest hread
  obtain ⟨length, body, hbytes, takes, run⟩ := (readDelimited_eq_ok_iff hlocal).mp hread
  have htotal := delimitedSize_mono (run.totalCost_le h)
  have hlength := readNumber_spends.takes_le takes
  rw [← input.size_eq, ← rest.size_eq, hbytes, List.length_append, List.length_append]
  unfold delimitedSize at htotal ⊢
  dsimp only
  omega

theorem foldl_size_le {σ α : Type} (size : σ → Nat) (cost : α → Nat) {step : σ → α → σ}
    (h : ∀ state item, size (step state item) ≤ size state + cost item) (items : List α)
    (state : σ) : size (items.foldl step state) ≤ size state + totalCost cost items := by
  induction items generalizing state with
  | nil => exact Nat.le_refl _
  | cons item items ih =>
      have hstep := h state item
      have hrest := ih (step state item)
      rw [List.foldl_cons, totalCost]
      omega

/-- What is left out at its default takes no more than where it is there. -/
theorem unless_le (isDefault : Prop) [Decidable isDefault] (n : Nat) :
    (if isDefault then 0 else n) ≤ n := by
  split
  · exact Nat.zero_le n
  · exact Nat.le_refl n

/-- The size of what is written for a field of a map entry. -/
def EntryField.size : EntryField → Nat
  | .key s => varintSize (Key.mk 1 .delimited).toNat + delimitedSize s.utf8ByteSize
  | .flag b => if b then varintSize (Key.mk 2 .varint).toNat + varintSize 1 else 0
  | .unknown => 0

theorem entrySize_absorbEntry_le (entry : String × Bool) (field : EntryField) :
    entrySize (absorbEntry entry field).1 (absorbEntry entry field).2
      ≤ entrySize entry.1 entry.2 + field.size := by
  cases field with
  | key s =>
      have hkey := unless_le (s = "")
        (varintSize (Key.mk 1 .delimited).toNat + delimitedSize s.utf8ByteSize)
      show entrySize s entry.2 ≤ _
      simp only [entrySize, EntryField.size]
      omega
  | flag b =>
      show entrySize entry.1 b ≤ _
      simp only [entrySize, EntryField.size]
      omega
  | unknown => exact Nat.le_refl _

theorem readEntryField_spends (budget : Nat) : Spends (readEntryField budget) EntryField.size := by
  rw [readEntryField_eq_andThen]
  refine readKey_spends.andThen fun key => ?_
  obtain ⟨number, wire⟩ := key
  unfold entryFieldBehind
  split
  · rename_i hnumber
    obtain rfl : number = 1 := hnumber
    exact (readText_spends wire).map EntryField.key fun s => Key.payload_le _ _ _ _
  · rename_i hnumber
    obtain rfl : number = 2 := hnumber
    refine (readInteger_spends wire).map (fun n => EntryField.flag (n != 0)) fun n => ?_
    have hflag := unless_le (¬ (n != 0) = true)
      (varintSize (Key.mk 2 .varint).toNat + varintSize 1)
    have hone : varintSize 1 = 1 := by rw [varintSize, if_pos (by decide)]
    have hn := varintSize_pos n
    have hkey := Key.size_eq 2 .varint wire
    rw [ite_not] at hflag
    rw [EntryField.size]
    omega
  · rw [← map_passing]
    exact (skip_local _ _ _).spends.map _ fun _ => Nat.sub_le 0 _

theorem readEntry_spends (budget : Nat) :
    Spends (readEntry budget) fun entry => delimitedSize (entrySize entry.1 entry.2) := by
  cases budget with
  | zero => exact .fail _ _
  | succ budget =>
      refine (readDelimited_spends (readEntryField_local budget)
        (readEntryField_spends budget)).map entryOfFields fun fields => ?_
      have hentry := foldl_size_le (fun entry => entrySize entry.1 entry.2) EntryField.size
        entrySize_absorbEntry_le fields ("", false)
      have hempty : entrySize "" false = 0 := rfl
      rw [hempty, Nat.zero_add] at hentry
      exact delimitedSize_mono hentry

/-! ### Fields of a message -/

theorem totalCost_size (fields : List Field) : totalCost Field.size fields = sizeFields fields := by
  induction fields with
  | nil => rfl
  | cons field fields ih => rw [totalCost, sizeFields, ih]

section

variable {budget : Nat} {nested : MessageType → Read (List Field)}

theorem readValue_spends
    (hnested : ∀ type, Spends (nested type) fun fields => delimitedSize (sizeFields fields))
    (spec : FieldSpec) (wire : WireType) :
    Spends (readValue budget nested spec wire)
      fun field => field.size - varintSize (Key.mk spec.number wire).toNat := by
  have hmessage : ∀ type, Spends (Read.map (Field.message spec.number) (nested type))
      fun field => field.size - varintSize (Key.mk spec.number wire).toNat :=
    fun type => (hnested type).map _ fun fields => Key.payload_le _ _ _ _
  -- An integer that is cut down to its width takes no more groups than it was read from.
  have hinteger : ∀ (n width : Nat), varintSize (Key.mk spec.number .varint).toNat
      + varintSize (n % width) - varintSize (Key.mk spec.number wire).toNat ≤ varintSize n :=
    fun n width => Nat.le_trans (Key.payload_le _ _ _ _) (varintSize_mono (Nat.mod_le n width))
  unfold readValue
  split
  · exact (readText_spends wire).map (Field.text spec.number) fun s => Key.payload_le _ _ _ _
  · refine (readInteger_spends wire).map
      (fun n => Field.int64 spec.number (UInt64.ofNat n).toInt64) fun n => ?_
    rw [Field.size, int64Bits, UInt64.toUInt64_toInt64, UInt64.toNat_ofNat']
    exact hinteger n _
  · refine (readInteger_spends wire).map
      (fun n => Field.uint64 spec.number (UInt64.ofNat n)) fun n => ?_
    rw [Field.size, UInt64.toNat_ofNat']
    exact hinteger n _
  · refine (readInteger_spends wire).map
      (fun n => Field.uint32 spec.number (UInt32.ofNat n)) fun n => ?_
    rw [Field.size, UInt32.toNat_ofNat']
    exact hinteger n _
  · exact (readEntry_spends budget).map
      (fun entry => Field.entry spec.number entry.1 entry.2) fun entry => Key.payload_le _ _ _ _
  · exact expect_spends wire .delimited (hmessage _)
  · exact expect_spends wire .delimited (hmessage _)

theorem readFieldWith_spends
    (hnested : ∀ type, Spends (nested type) fun fields => delimitedSize (sizeFields fields))
    (type : MessageType) : Spends (readFieldWith budget nested type) Field.size := by
  rw [readFieldWith_eq_andThen]
  refine readKey_spends.andThen fun key => ?_
  obtain ⟨number, wire⟩ := key
  unfold fieldBehind
  split
  · rw [← map_passing]
    exact (skip_local _ _ _).spends.map _ fun _ => Nat.sub_le 0 _
  · rename_i spec hspec
    have hnumber : spec.number = number := MessageType.number_of_field? hspec
    have hvalue : Spends (readValue budget nested spec wire) _ :=
      readValue_spends hnested spec wire
    rw [hnumber] at hvalue
    exact hvalue.mapError _

end

/-- **Reading a field spends its size**, whatever form of it was read. -/
theorem readField_spends (budget : Nat) (type : MessageType) :
    Spends (readField budget type) Field.size := by
  induction budget generalizing type with
  | zero => exact readFieldWith_spends (fun _ => .fail _ _) type
  | succ budget ih =>
      refine readFieldWith_spends (fun inner => ?_) type
      have hnested := readDelimited_spends (readField_local budget inner) (ih inner)
      simpa only [totalCost_size] using hnested

/-- The fields of a message take no fewer bytes than are written for them. -/
theorem sizeFields_le_of_readFields {type : MessageType} {bytes : List UInt8}
    {fields : List Field} (h : readFields type bytes = .ok fields) :
    sizeFields fields ≤ bytes.length := by
  rw [← totalCost_size]
  exact (readFields_eq_ok_iff.mp h).totalCost_le (readField_spends nestingBudget type)

end NodeView.Wire
