import NodeView.Proofs.Message.Absorbing
import NodeView.Proofs.Message.Occurrences
/-!
# NodeView.Proofs.Message.Rearrangement

The fields of a binary message in another order.

A field changes one part of a message: the one of its number, and of a map the vote of one address
(`Field.slot`). Fields with different slots may be absorbed in either order
(`TransactionRecord.absorb_comm` and its companions), so a message does not depend on more than the
order of the fields within each slot. That is the part of an order that `Rearranged` keeps, and a
fold over steps that commute across slots comes to the same on both sides
(`Rearranged.foldl_eq`). An occurrence is read whatever stands around it, so a rearrangement of
occurrences is also accepted (`Message.decode_rearranged`).
-/

namespace NodeView

/-! ### Lists in another order -/

/-- A step may be put off behind others that it commutes with. -/
theorem foldl_step_of_comm {α σ : Type} {step : σ → α → σ} {a : α} {items : List α}
    (hcomm : ∀ b ∈ items, ∀ s, step (step s b) a = step (step s a) b) (s : σ) :
    items.foldl step (step s a) = step (items.foldl step s) a := by
  induction items generalizing s with
  | nil => rfl
  | cons b items ih =>
      obtain ⟨hb, hitems⟩ := List.forall_mem_cons.mp hcomm
      rw [List.foldl_cons, List.foldl_cons, ← hb, ih hitems]

/-- The same items in another order, in which those with one slot follow each other as before. -/
structure Rearranged {α κ : Type} [DecidableEq κ] (slot : α → κ) (as bs : List α) : Prop where
  perm : as.Perm bs
  order : ∀ key, as.filter (slot · = key) = bs.filter (slot · = key)

namespace Rearranged

variable {α β κ ι σ : Type} [DecidableEq κ] [DecidableEq ι] {slot : α → κ} {as bs : List α}

/-- To keep the order within coarse slots is to keep it within finer ones. -/
theorem finer {coarse : α → ι} (h : Rearranged coarse as bs) {f : κ → ι}
    (hcoarse : ∀ a, coarse a = f (slot a)) : Rearranged slot as bs where
  perm := h.perm
  order := by
    intro key
    have hinside : ∀ items : List α, items.filter (slot · = key)
        = (items.filter (coarse · = f key)).filter (slot · = key) := by
      intro items
      rw [List.filter_filter]
      refine List.filter_congr fun a _ => ?_
      by_cases hslot : slot a = key
      · simp [hslot, hcoarse]
      · simp [hslot]
    rw [hinside as, hinside bs, h.order]

theorem map {f : β → α} {as bs : List β} (h : Rearranged (fun b => slot (f b)) as bs) :
    Rearranged slot (as.map f) (bs.map f) where
  perm := h.perm.map f
  order := by
    intro key
    rw [List.filter_map, List.filter_map]
    exact congrArg (List.map f) (h.order key)

/-- The first item stands somewhere on the other side, behind items of other slots only, and
without it the rest is rearranged. -/
theorem exists_of_cons {a : α} (h : Rearranged slot (a :: as) bs) :
    ∃ front back, bs = front ++ a :: back ∧ (∀ b ∈ front, slot b ≠ slot a)
      ∧ Rearranged slot as (front ++ back) := by
  have hown := h.order (slot a)
  rw [List.filter_cons_of_pos (by simp), eq_comm, List.filter_eq_cons_iff] at hown
  obtain ⟨front, back, rfl, hfront, -, hback⟩ := hown
  have hfront : ∀ b ∈ front, slot b ≠ slot a := by simpa using hfront
  refine ⟨front, back, rfl, hfront, (h.perm.trans List.perm_middle).cons_inv, ?_⟩
  intro key
  have hkey := h.order key
  rw [List.filter_append] at hkey ⊢
  by_cases hslot : slot a = key
  · subst hslot
    have hnone : front.filter (slot · = slot a) = [] := by simpa using hfront
    rw [hnone, hback, List.nil_append]
  · rwa [List.filter_cons_of_neg (by simpa using hslot),
      List.filter_cons_of_neg (by simpa using hslot)] at hkey

/-- **Steps that commute across slots come to the same in either order.** -/
theorem foldl_eq (h : Rearranged slot as bs) {step : σ → α → σ}
    (hcomm : ∀ s a b, slot a ≠ slot b → step (step s a) b = step (step s b) a) (s : σ) :
    as.foldl step s = bs.foldl step s := by
  induction as generalizing bs s with
  | nil => rw [h.perm.nil_eq]
  | cons a as ih =>
      -- On the other side the first item has others in front of it, all of other slots.
      obtain ⟨front, back, rfl, hfront, hrest⟩ := h.exists_of_cons
      rw [List.foldl_cons, ih hrest, List.foldl_append, List.foldl_append, List.foldl_cons,
        foldl_step_of_comm fun b hb s => hcomm s b a (hfront b hb)]

/-- What only items of one slot yield keeps its order. -/
theorem filterMap_eq (h : Rearranged slot as bs) {key : κ} {f : α → Option β}
    (hkey : ∀ a, slot a ≠ key → f a = none) : as.filterMap f = bs.filterMap f := by
  have hinside : ∀ items : List α,
      items.filterMap f = (items.filter (slot · = key)).filterMap f := by
    intro items
    rw [List.filterMap_filter]
    refine List.filterMap_congr fun a _ => ?_
    by_cases hslot : slot a = key
    · simp [hslot]
    · simp [hslot, hkey a hslot]
  rw [hinside as, hinside bs, h.order]

end Rearranged

/-! ### What a field changes -/

open Wire (Field)

/-- What a field changes: the part of a message with its number, and of a map the entry under its
key. -/
def Wire.Field.slot : Field → Nat × Option String
  | .entry n key _ => (n, some key)
  | field => (field.number, none)

theorem Wire.Field.slot_fst (field : Field) : field.slot.1 = field.number := by
  cases field <;> rfl

/-- Two settings under different numbers, of which at most one is that of the part. -/
theorem ite_swap {α : Type} {n m : Nat} (h : n ≠ m) (part : Nat) (a b c : α) :
    (if m = part then b else if n = part then a else c)
      = if n = part then a else if m = part then b else c := by
  by_cases hn : n = part
  · have hm : m ≠ part := fun hm => h (hn.trans hm.symm)
    simp [hn, hm]
  · simp [hn]

theorem Validators.insert_comm (map : Validators) {a b : String} (h : a ≠ b) (v w : Bool) :
    (map.insert a v).insert b w = (map.insert b w).insert a v := by
  ext1 address
  by_cases ha : address = a
  · simp [ha, h]
  · simp [ha]

namespace Token

/-- Fields that change different parts of a token are absorbed in either order. -/
theorem absorb_comm (token : Token) {a b : Field} (h : a.slot ≠ b.slot) :
    (token.absorb a).absorb b = (token.absorb b).absorb a := by
  cases a with
  | text n s =>
      cases b with
      | text m t =>
          have hne : n ≠ m := fun heq => h (congrArg (·, none) heq)
          simp only [absorb_text, ite_swap hne]
      | uint32 => simp only [absorb_text, absorb_uint32]
      | _ => rfl
  | uint32 n v =>
      cases b with
      | text => simp only [absorb_text, absorb_uint32]
      | uint32 m w =>
          have hne : n ≠ m := fun heq => h (congrArg (·, none) heq)
          simp only [absorb_uint32, ite_swap hne]
      | _ => rfl
  | _ => rfl

end Token

namespace NodeTypeResponse

/-- Fields that change different parts of a node's role are absorbed in either order. -/
theorem absorb_comm (response : NodeTypeResponse) {a b : Field} (h : a.slot ≠ b.slot) :
    (response.absorb a).absorb b = (response.absorb b).absorb a := by
  cases a with
  | text n s =>
      cases b with
      | text m t =>
          have hne : n ≠ m := fun heq => h (congrArg (·, none) heq)
          simp only [absorb_text, ite_swap hne]
      | _ => rfl
  | _ => rfl

end NodeTypeResponse

namespace TransactionRecord

/-- Fields that change different parts of a transaction are absorbed in either order. -/
theorem absorb_comm (record : TransactionRecord) {a b : Field} (h : a.slot ≠ b.slot) :
    (record.absorb a).absorb b = (record.absorb b).absorb a := by
  -- Fields of different shapes change different components; what is left are two of one shape.
  cases a <;> cases b <;>
    simp only [absorb_text, absorb_int64, absorb_uint64, absorb_message, absorb_entry,
      absorb_uint32, absorb_unknown]
  case text.text n s m t =>
    have hne : n ≠ m := fun heq => h (congrArg (·, none) heq)
    simp only [ite_swap hne]
  case int64.int64 n v m w =>
    have hne : n ≠ m := fun heq => h (congrArg (·, none) heq)
    simp only [ite_swap hne]
  case uint64.uint64 n v m w =>
    have hne : n ≠ m := fun heq => h (congrArg (·, none) heq)
    simp only [ite_swap hne]
  case message.message n fields m others =>
    have hne : n ≠ m := fun heq => h (congrArg (·, none) heq)
    -- At most one of the two numbers is that of the token.
    by_cases hn : n = 6
    · have hm : m ≠ 6 := fun hm => hne (hn.trans hm.symm)
      simp only [hn, hm, if_true, if_false]
    · simp only [hn, if_false]
  case entry.entry n address vote m other vote' =>
    by_cases hn : n = 9
    · by_cases hm : m = 9
      · have hne : address ≠ other := fun heq => h (by rw [hn, hm, heq]; rfl)
        simp only [hn, hm, if_true, Validators.insert_comm _ hne]
      · simp only [hn, hm, if_true, if_false]
    · simp only [hn, if_false]

end TransactionRecord

/-- A transaction of a response is under the one number of its field. -/
theorem MempoolResponse.record?_of_slot_ne {field : Field} (h : field.slot ≠ (1, none)) :
    record? field = none := by
  unfold record?
  split
  · exact absurd rfl h
  · rfl

/-- **The order of fields with different slots has no part in a message.** -/
theorem Message.ofFields_eq_of_rearranged {fields others : List Field}
    (h : Rearranged Field.slot fields others) (type : MessageType) :
    ofFields type fields = ofFields type others := by
  cases type with
  | nodeTypeRequest | mempoolRequest => rfl
  | nodeTypeResponse =>
      simp only [ofFields, h.foldl_eq fun s _ _ => NodeTypeResponse.absorb_comm s]
  | mempoolResponse =>
      simp only [ofFields, h.filterMap_eq fun _ => MempoolResponse.record?_of_slot_ne]
  | transactionRecord =>
      simp only [ofFields, h.foldl_eq fun s _ _ => TransactionRecord.absorb_comm s]
  | token => simp only [ofFields, h.foldl_eq fun s _ _ => Token.absorb_comm s]

/-! ### Occurrences -/

namespace Wire

theorem number_of_readValue {budget : Nat} {nested : MessageType → Read (List Field)}
    {spec : FieldSpec} {wire : WireType} {input rest : Input} {field : Field}
    (h : readValue budget nested spec wire input = .ok (field, rest)) :
    field.number = spec.number := by
  have hmap : ∀ {α : Type} (read : Read α) (toField : α → Field),
      (∀ a, (toField a).number = spec.number) →
      read.map toField input = .ok (field, rest) → field.number = spec.number := by
    intro α read toField hnumber hread
    obtain ⟨a, -, rfl⟩ := Read.map_eq_ok_iff.mp hread
    exact hnumber a
  unfold readValue at h
  split at h
  · exact hmap (readText wire) (.text spec.number) (fun _ => rfl) h
  · exact hmap (readInteger wire) (fun n => .int64 spec.number (UInt64.ofNat n).toInt64)
      (fun _ => rfl) h
  · exact hmap (readInteger wire) (fun n => .uint64 spec.number (UInt64.ofNat n)) (fun _ => rfl) h
  · exact hmap (readInteger wire) (fun n => .uint32 spec.number (UInt32.ofNat n)) (fun _ => rfl) h
  · exact hmap (readEntry budget) (fun entry => .entry spec.number entry.1 entry.2)
      (fun _ => rfl) h
  · split at h
    · cases h
    · exact hmap (nested _) (.message spec.number) (fun _ => rfl) h
  · split at h
    · cases h
    · exact hmap (nested _) (.message spec.number) (fun _ => rfl) h

/-- The field that is read behind a key has the number of the key. -/
theorem number_of_fieldBehind {budget : Nat} {nested : MessageType → Read (List Field)}
    {type : MessageType} {key : Key} {input rest : Input} {field : Field}
    (h : fieldBehind budget nested type key input = .ok (field, rest)) :
    field.number = key.number := by
  cases hspec : type.field? key.number with
  | none =>
      simp only [fieldBehind, hspec] at h
      cases hskip : skip budget key.wire key.number input with
      | error fault => rw [hskip] at h; cases h
      | ok after =>
          rw [hskip] at h
          cases h
          rfl
  | some spec =>
      have hvalue := fieldBehind_eq_ok hspec h
      exact (number_of_readValue hvalue).trans (MessageType.number_of_field? hspec)

namespace Occurrence

variable {type : MessageType}

/-- The number of the field that occurs, which is that of its key (`number_eq`). -/
def number (occurrence : Occurrence type) : Nat := occurrence.field.number

/-- What the field that occurs changes. -/
def slot (occurrence : Occurrence type) : Nat × Option String := occurrence.field.slot

/-- An occurrence begins with a key, and its number is that of the key. -/
theorem number_eq (occurrence : Occurrence type) :
    ∃ key rest, readKey (.ofList occurrence.bytes) = .ok (key, rest)
      ∧ occurrence.number = key.number := by
  have hfield := occurrence.takes []
  rw [readField_eq, readFieldWith_eq_andThen, Read.andThen, List.append_nil] at hfield
  split at hfield
  · cases hfield
  · rename_i key rest hkey
    exact ⟨key, rest, hkey, number_of_fieldBehind hfield⟩

end Occurrence

end Wire

namespace Message

open Wire (Occurrence)

variable {type : MessageType}

theorem ofOccurrences_eq_of_rearranged {occurrences others : List (Occurrence type)}
    (h : Rearranged Occurrence.slot occurrences others) :
    ofOccurrences occurrences = ofOccurrences others :=
  ofFields_eq_of_rearranged (h.map (f := Occurrence.field)) type

/-- A rearrangement is accepted within the same limit, as the same message. -/
theorem decode_join_of_rearranged {occurrences others : List (Occurrence type)}
    (h : Rearranged Occurrence.slot occurrences others) {limit : Nat}
    (hsize : (Occurrence.join occurrences).length ≤ limit) :
    decode type (Occurrence.join others) limit = .ok (ofOccurrences occurrences) := by
  have hlength : (Occurrence.join others).length = (Occurrence.join occurrences).length :=
    (h.perm.flatMap_right _).length_eq.symm
  rw [ofOccurrences_eq_of_rearranged h]
  exact decode_join (hlength ▸ hsize)

/-- All binary forms of a message are read alike, whatever the orders of its votes. -/
theorem BinaryForm.decode_eq {message : Message} {form other : List UInt8}
    (h : message.BinaryForm form) (h' : message.BinaryForm other) (limit : UInt64) :
    decode message.type form limit.toNat = decode message.type other limit.toNat := by
  have hlength : form.length = other.length := h.length_eq.trans h'.length_eq.symm
  rw [decode, decode, hlength]
  split
  · rfl
  · rename_i hlimit
    have hsize : other.length < 2 ^ 64 := by
      have := limit.toNat_lt
      omega
    obtain ⟨fields, hread, hmessage⟩ := h.readFields (hlength ▸ hsize)
    obtain ⟨fields', hread', hmessage'⟩ := h'.readFields hsize
    simp only [hread, hread', hmessage, hmessage']

/-- **The order of fields does not matter.** Bytes that are read as a message are occurrences of its
fields in one way. In any other order that keeps the occurrences with the same number in the order
they had, they are read as the same message within the same limit; and so they are if only the
votes of the same address keep their order among the votes. So no reader can tell in which orders
the votes of a message were written. -/
theorem decode_rearranged {bytes : List UInt8} {limit : UInt64} {message : Message}
    (h : decode type bytes limit.toNat = .ok message) :
    ∃ occurrences : List (Occurrence type),
      (∀ others, Occurrence.join others = bytes ↔ others = occurrences)
      ∧ (∀ others, Rearranged Occurrence.number occurrences others →
        decode type (Occurrence.join others) limit.toNat = .ok message)
      ∧ (∀ others, Rearranged Occurrence.slot occurrences others →
        decode type (Occurrence.join others) limit.toNat = .ok message)
      ∧ ∀ written : Message, written.type = type → ∀ form other, written.BinaryForm form →
        written.BinaryForm other →
        decode type form limit.toNat = decode type other limit.toNat := by
  obtain ⟨hsize, fields, hread, rfl⟩ := decode_eq_ok h
  obtain ⟨occurrences, rfl, rfl⟩ :=
    Occurrence.exists_of_run (Wire.readFields_eq_ok_iff.mp hread)
  have hslots : ∀ others, Rearranged Occurrence.slot occurrences others →
      decode type (Occurrence.join others) limit.toNat = .ok (ofOccurrences occurrences) :=
    fun others hothers => decode_join_of_rearranged hothers hsize
  refine ⟨occurrences, fun others => ⟨Occurrence.join_injective, fun heq => heq ▸ rfl⟩, ?_, hslots,
    ?_⟩
  · -- An order that is kept within numbers is kept within slots.
    intro others hothers
    have hnumber : ∀ occurrence : Occurrence type, occurrence.number = occurrence.slot.1 :=
      fun occurrence => occurrence.field.slot_fst.symm
    exact hslots others (hothers.finer hnumber)
  · rintro written rfl form other hform hother
    exact hform.decode_eq hother limit

/-- Two votes, two halves of a token with an identifier between them, and a field that is not
declared. -/
theorem decode_rearranged_votes :
    let bytes : List UInt8 :=
      [0x4a, 0x03, 0x0a, 0x01, 0x78, 0x4a, 0x05, 0x0a, 0x01, 0x79, 0x10, 0x01,
        0x32, 0x03, 0x0a, 0x01, 0x58, 0x0a, 0x01, 0x41, 0x32, 0x02, 0x18, 0x02, 0x58, 0x07]
    let record : TransactionRecord :=
      { id := "A", token := some { name := "X", decimals := 2 },
        validators := .ofList [("x", false), ("y", true)] }
    decode .transactionRecord bytes 26 = .ok (.transactionRecord record)
      ∧ ∃ occurrences : List (Occurrence .transactionRecord),
        (∀ others, Occurrence.join others = bytes ↔ others = occurrences)
        ∧ (∀ others, Rearranged Occurrence.number occurrences others →
          decode .transactionRecord (Occurrence.join others) 26
            = .ok (.transactionRecord record))
        ∧ (∀ others, Rearranged Occurrence.slot occurrences others →
          decode .transactionRecord (Occurrence.join others) 26
            = .ok (.transactionRecord record))
        ∧ ∀ written : Message, written.type = .transactionRecord → ∀ form other,
          written.BinaryForm form → written.BinaryForm other →
          decode .transactionRecord form 26 = decode .transactionRecord other 26 := by
  intro bytes record
  have hread : decode .transactionRecord bytes 26 = .ok (.transactionRecord record) :=
    decode_eq_ok_of_toOption (by decide +kernel)
  exact ⟨hread, @decode_rearranged _ _ 26 _ hread⟩

end Message

end NodeView
