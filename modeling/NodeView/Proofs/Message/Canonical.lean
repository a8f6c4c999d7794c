import Mathlib.Data.List.Nodup
import NodeView.Message.Normal
import NodeView.Message.OfJson
import NodeView.Message.UnknownKey
import NodeView.Json.Printer
import NodeView.Proofs.Decimal.Digits
import NodeView.Schema
/-!
# NodeView.Proofs.Message.Canonical

Values that pass every step of reading as they are.

A strict reading refuses unknown keys, every reading normalises the value and then takes its
members apart. A value is *canonical* if the first step finds nothing, the second changes
nothing and the third succeeds. A message is canonical if its members are and no key is given
twice (`CanonicalMembers.fieldsOfMembers` and the lemmas before it); in which order the members
come plays no part in that.
-/

namespace NodeView.Message

open Wire (Field)

/-! ### Integers as texts -/

theorem magnitudeOfText_digits {digits : List Char} (hdigits : ∀ c ∈ digits, c.isDigit = true)
    {bound n : Nat} (hbound : Nat.ofDigitChars 10 digits n ≤ bound) (beyond : DataFault) :
    magnitudeOfText bound beyond n digits = .ok (Nat.ofDigitChars 10 digits n) := by
  induction digits generalizing n with
  | nil => rfl
  | cons c digits ih =>
      obtain ⟨hc, hdigits⟩ := List.forall_mem_cons.mp hdigits
      rw [Nat.ofDigitChars_cons] at hbound ⊢
      -- The digits so far write no more than all of them do.
      have hnext : ¬ bound < 10 * n + Text.digitValue c :=
        Nat.not_lt.mpr (Nat.le_trans (Decimal.le_ofDigitChars digits _) hbound)
      simp only [magnitudeOfText, hc, if_true, hnext, if_false]
      exact ih hdigits hbound

theorem magnitudeOfText_digitsOf {bound n : Nat} (h : n ≤ bound) (beyond : DataFault) :
    magnitudeOfText bound beyond 0 (Decimal.digitsOf n) = .ok n := by
  have hvalue := Decimal.ofDigitChars_digitsOf n
  have hread := magnitudeOfText_digits (fun c hc => Decimal.isDigit_of_mem_digitsOf (n := n) hc)
    (hvalue.symm ▸ h) beyond
  rwa [hvalue] at hread

theorem magnitudeOfText_beyond {digits : List Char} (hdigits : ∀ c ∈ digits, c.isDigit = true)
    {bound n : Nat} (hn : n ≤ bound) (hbeyond : bound < Nat.ofDigitChars 10 digits n)
    (beyond : DataFault) : magnitudeOfText bound beyond n digits = .error beyond := by
  induction digits generalizing n with
  | nil =>
      rw [Nat.ofDigitChars_nil] at hbeyond
      exact absurd hn (Nat.not_le_of_lt hbeyond)
  | cons c digits ih =>
      obtain ⟨hc, hdigits⟩ := List.forall_mem_cons.mp hdigits
      rw [Nat.ofDigitChars_cons] at hbeyond
      simp only [magnitudeOfText, hc, if_true]
      split
      · rfl
      · rename_i hnext
        exact ih hdigits (Nat.le_of_not_lt hnext) hbeyond

theorem magnitudeOfText_digitsOf_beyond {bound n : Nat} (h : bound < n) (beyond : DataFault) :
    magnitudeOfText bound beyond 0 (Decimal.digitsOf n) = .error beyond :=
  magnitudeOfText_beyond (fun _ hc => Decimal.isDigit_of_mem_digitsOf hc) (Nat.zero_le _)
    (by rwa [Decimal.ofDigitChars_digitsOf]) beyond

/-- The digits of an integer are read behind its sign, if it has one and may have it. -/
theorem integerOfText_integerChars_eq (low high n : Int) :
    integerOfText low high (Json.integerChars n)
      = if n < 0 then
          if low < 0 then
            (magnitudeOfText (-low).toNat .tooSmall 0 (Decimal.digitsOf n.natAbs)).map
              fun m => -(m : Int)
          else .error .invalidDigit
        else
          (magnitudeOfText high.toNat .tooLarge 0 (Decimal.digitsOf n.natAbs)).map
            fun m => (m : Int) := by
  obtain ⟨c, digits, hdigits, hc⟩ := Decimal.exists_digitsOf_eq_cons n.natAbs
  -- A digit is no sign.
  have hsign : c ≠ '+' ∧ c ≠ '-' := by
    constructor <;> rintro rfl <;> cases hc
  unfold Json.integerChars
  split
  · rw [hdigits, integerOfText]
    exact List.cons_ne_nil c digits
  · rw [hdigits, integerOfText]
    · exact List.cons_ne_nil c digits
    · exact fun h => hsign.1 (List.cons.inj h).1
    · exact fun h => hsign.2 (List.cons.inj h).1
    · exact fun _ h => hsign.1 (List.cons.inj h).1
    · exact fun _ h => hsign.2 (List.cons.inj h).1

/-- The text of an integer in range is read as the integer. -/
theorem integerOfText_integerChars {low high n : Int} (hlow : low ≤ n) (hhigh : n ≤ high) :
    integerOfText low high (Json.integerChars n) = .ok n := by
  rw [integerOfText_integerChars_eq]
  split
  · rename_i hnegative
    rw [if_pos (by omega), magnitudeOfText_digitsOf (by omega)]
    show Except.ok (-(n.natAbs : Int)) = .ok n
    congr 1
    omega
  · rename_i hnatural
    rw [magnitudeOfText_digitsOf (by omega)]
    show Except.ok (n.natAbs : Int) = .ok n
    congr 1
    omega

/-- The text of an integer out of range is refused. -/
theorem integerOfText_out_of_range {low high n : Int} (hlow : low ≤ 0) (hhigh : 0 ≤ high)
    (hn : n < low ∨ high < n) :
    ∃ fault, integerOfText low high (Json.integerChars n) = .error fault := by
  rw [integerOfText_integerChars_eq]
  split
  · split
    · exact ⟨.tooSmall, by rw [magnitudeOfText_digitsOf_beyond (by omega)]; rfl⟩
    · exact ⟨.invalidDigit, rfl⟩
  · exact ⟨.tooLarge, by rw [magnitudeOfText_digitsOf_beyond (by omega)]; rfl⟩

/-! ### Canonical values -/

/-- A value that a field is read from as it is, and the fields that it is read as. -/
structure Canonical (spec : FieldSpec) (value : Json) (fields : List Field) : Prop where
  given : value.isNull = false
  known : unknownKeyOfValue? spec.kind value = none
  normal : normalValue spec.kind value = value
  reads : fieldsOfValue spec value = .ok fields

/-- Members that a message is read from as they are, each under the camel-case spelling of its
field, and the fields that they are read as. -/
inductive CanonicalMembers (type : MessageType) : List (String × Json) → List Field → Prop where
  | nil : CanonicalMembers type [] []
  | cons {spec : FieldSpec} {value : Json} {members : List (String × Json)}
      {fields others : List Field} (hspec : type.fieldByKey? spec.jsonName = some spec)
      (hvalue : Canonical spec value fields) (hmembers : CanonicalMembers type members others) :
      CanonicalMembers type ((spec.jsonName, value) :: members) (fields ++ others)

section

variable {type : MessageType} {members : List (String × Json)} {fields : List Field}

theorem CanonicalMembers.append {more : List (String × Json)} {others : List Field}
    (h : CanonicalMembers type members fields) (hmore : CanonicalMembers type more others) :
    CanonicalMembers type (members ++ more) (fields ++ others) := by
  induction h with
  | nil => exact hmore
  | cons hspec hvalue _ ih =>
      rw [List.cons_append, List.append_assoc]
      exact .cons hspec hvalue ih

/-- A member that is left out at its default together with its fields. -/
theorem canonicalMembers_unless {isDefault : Prop} [Decidable isDefault] (spec : FieldSpec)
    {value : Json} (hspec : type.fieldByKey? spec.jsonName = some spec)
    (hvalue : Canonical spec value fields) :
    CanonicalMembers type (if isDefault then [] else [(spec.jsonName, value)])
      (if isDefault then [] else fields) := by
  split
  · exact .nil
  · have hmember := CanonicalMembers.cons hspec hvalue .nil
    rwa [List.append_nil] at hmember

/-! ### The three steps -/

theorem CanonicalMembers.unknownKey (h : CanonicalMembers type members fields) :
    unknownKeyOfMembers? type members = none := by
  induction h with
  | nil => rfl
  | cons hspec hvalue _ ih =>
      simp only [unknownKeyOfMembers?, hspec, hvalue.known, ih, Option.none_or]

theorem CanonicalMembers.normalMembers (h : CanonicalMembers type members fields) :
    normalMembers type members = members := by
  induction h with
  | nil => rfl
  | cons hspec hvalue _ ih =>
      simp only [Message.normalMembers, hvalue.given, Bool.false_eq_true, if_false, hspec,
        hvalue.normal, ih]

theorem CanonicalMembers.jsonName_eq (h : CanonicalMembers type members fields) {key : String}
    (hkey : key ∈ members.map (·.1)) {spec : FieldSpec}
    (hspec : type.fieldByKey? key = some spec) : key = spec.jsonName := by
  induction h with
  | nil => cases hkey
  | cons hown _ _ ih =>
      rcases List.mem_cons.mp hkey with rfl | hkey
      · cases hown.symm.trans hspec
        rfl
      · exact ih hkey

/-- A number names one field of a message. -/
theorem MessageType.eq_of_number_eq {a b : FieldSpec} (ha : a ∈ type.fields)
    (hb : b ∈ type.fields) (h : a.number = b.number) : a = b :=
  List.inj_on_of_nodup_map type.numbers_nodup ha hb h

theorem noneSeen : ∀ key ∈ members.map (·.1), ∀ spec, type.fieldByKey? key = some spec →
    spec.number ∉ ([] : List Nat) :=
  fun _ _ _ _ => List.not_mem_nil

/-- Where no key is given twice no field is either, so all members are read. -/
theorem CanonicalMembers.fieldsOfMembers (h : CanonicalMembers type members fields)
    (hkeys : (members.map (·.1)).Nodup) {seen : List Nat}
    (hseen : ∀ key ∈ members.map (·.1), ∀ spec, type.fieldByKey? key = some spec →
      spec.number ∉ seen) :
    fieldsOfMembers type seen members = .ok fields := by
  induction h generalizing seen with
  | nil => rfl
  | @cons spec value members fields others hspec hvalue hmembers ih =>
      obtain ⟨hnew, hkeys⟩ := List.nodup_cons.mp hkeys
      obtain ⟨hown, hseen⟩ := List.forall_mem_cons.mp hseen
      have hothers : Message.fieldsOfMembers type (spec.number :: seen) members = .ok others := by
        refine ih hkeys fun key hkey other hother hmem => ?_
        -- One number is one field, one field one spelling here, and no spelling comes twice.
        rcases List.mem_cons.mp hmem with hnumber | hmem
        · have hsame := MessageType.eq_of_number_eq (List.mem_of_find?_eq_some hother)
            (List.mem_of_find?_eq_some hspec) hnumber
          have hname := hmembers.jsonName_eq hkey hother
          exact hnew (hsame ▸ hname ▸ hkey)
        · exact hseen key hkey other hother hmem
      simp only [Message.fieldsOfMembers, MessageType.declaredFieldByKey?_eq, hspec,
        hown spec hspec, if_false, hvalue.reads, hothers]

end

/-! ### Values of each kind -/

section

variable {spec : FieldSpec}

theorem canonical_text (hkind : spec.kind = .text) (s : String) :
    Canonical spec (.string s) [.text spec.number s] where
  given := rfl
  known := rfl
  normal := rfl
  reads := by simp only [fieldsOfValue, scalarOfJson, hkind]

theorem canonical_int64 (hkind : spec.kind = .int64) (n : Int64) :
    Canonical spec (.string (String.ofList (Json.integerChars n.toInt)))
      [.int64 spec.number n] where
  given := rfl
  known := rfl
  normal := rfl
  reads := by
    have hlow : -2 ^ 63 ≤ n.toInt := n.le_toInt
    have hhigh : n.toInt ≤ 2 ^ 63 - 1 := Int.le_sub_one_of_lt n.toInt_lt
    simp only [fieldsOfValue, scalarOfJson, hkind, integerOfJson, String.toList_ofList,
      integerOfText_integerChars hlow hhigh, Except.map, Int64.ofInt_toInt]

theorem canonical_uint64 (hkind : spec.kind = .uint64) (n : UInt64) :
    Canonical spec (.string (String.ofList (Json.integerChars n.toNat)))
      [.uint64 spec.number n] where
  given := rfl
  known := rfl
  normal := rfl
  reads := by
    have hlow : (0 : Int) ≤ n.toNat := Int.natCast_nonneg _
    have hhigh : (n.toNat : Int) ≤ 2 ^ 64 - 1 := by
      have := n.toNat_lt
      omega
    simp only [fieldsOfValue, scalarOfJson, hkind, integerOfJson, String.toList_ofList,
      integerOfText_integerChars hlow hhigh, Except.map, Int.toNat_natCast, UInt64.ofNat_toNat]

theorem canonical_uint32 (hkind : spec.kind = .uint32) (n : UInt32) :
    Canonical spec (.integer n.toNat) [.uint32 spec.number n] where
  given := rfl
  known := rfl
  normal := rfl
  reads := by
    have hrange : (0 : Int) ≤ n.toNat ∧ (n.toNat : Int) ≤ 2 ^ 32 - 1 := by
      have := n.toNat_lt
      omega
    simp only [fieldsOfValue, scalarOfJson, hkind, integerOfJson, if_pos hrange, Except.map,
      Int.toNat_natCast, UInt32.ofNat_toNat]

/-- The keys of a map are data, so any of them will do. -/
theorem canonical_flags (hkind : spec.kind = .flags) (votes : List (String × Bool)) :
    Canonical spec (.object (votes.map fun (address, vote) => (address, .bool vote)))
      (votes.map fun (address, vote) => .entry spec.number address vote) where
  given := rfl
  known := by simp only [unknownKeyOfValue?, hkind]
  normal := by simp only [normalValue, hkind]
  reads := by
    simp only [fieldsOfValue, hkind]
    induction votes with
    | nil => rfl
    | cons vote votes ih => simp only [List.map_cons, entriesOfMembers, ih, Except.map]

theorem canonical_message {type : MessageType} {members : List (String × Json)}
    {fields : List Field} (hkind : spec.kind = .message type)
    (h : CanonicalMembers type members fields) (hkeys : (members.map (·.1)).Nodup) :
    Canonical spec (.object members) [.message spec.number fields] where
  given := rfl
  known := by simp only [unknownKeyOfValue?, hkind, h.unknownKey]
  normal := by simp only [normalValue, hkind, h.normalMembers]
  reads := by
    have hread := h.fieldsOfMembers hkeys noneSeen
    simp only [fieldsOfValue, hkind, hread, Except.map]

theorem canonical_repeated {α : Type} {type : MessageType} {members : α → List (String × Json)}
    {fields : α → List Field} (hkind : spec.kind = .repeated type)
    (h : ∀ a, CanonicalMembers type (members a) (fields a))
    (hkeys : ∀ a, ((members a).map (·.1)).Nodup) (items : List α) :
    Canonical spec (.array (items.map fun a => .object (members a)))
      (items.map fun a => .message spec.number (fields a)) where
  given := rfl
  known := by
    simp only [unknownKeyOfValue?, hkind]
    induction items with
    | nil => rfl
    | cons a items ih =>
        simp only [List.map_cons, unknownKeyOfItems?, unknownKey?, (h a).unknownKey, ih,
          Option.none_or]
  normal := by
    simp only [normalValue, hkind]
    congr 1
    induction items with
    | nil => rfl
    | cons a items ih =>
        simp only [List.map_cons, normalItems, Message.normal, (h a).normalMembers, ih]
  reads := by
    simp only [fieldsOfValue, hkind]
    induction items with
    | nil => rfl
    | cons a items ih =>
        have hread := (h a).fieldsOfMembers (hkeys a) noneSeen
        simp only [List.map_cons, fieldsOfItems, fieldsOfJson, hread, ih]

end

end NodeView.Message
