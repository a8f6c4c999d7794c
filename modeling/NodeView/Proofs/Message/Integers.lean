import NodeView.Message.Decode
import NodeView.Proofs.Json.LargeNumber
import NodeView.Proofs.Json.Printed
import NodeView.Proofs.Message.Canonical
import NodeView.Proofs.Message.WholeNumbers
/-!
# NodeView.Proofs.Message.Integers

Integers in a JSON text, spelled as a number or as a string of digits.

The two spellings are read in different ways. The digits of a string are checked against the
range of the field. A number becomes a 64-bit integer or a floating-point number when the text
is parsed, and the normal form turns a floating-point number that is whole into an integer
again, as long as it is in range. Still both come to the same (`Message.ofJsonText_integer`),
because a number beyond 64 bits is not rounded to one within them, but for one place: the 1024
integers below the signed range are rounded to its lower end, which a timestamp has room for
(`IntegerField.taken`).
-/

namespace NodeView

open Json (integerChars)

/-- The fields that hold an integer. -/
inductive IntegerField where
  | timestamp
  | amount
  | nonce
  | decimals
  deriving DecidableEq, Repr

namespace IntegerField

/-- The message that has the field. -/
def type : IntegerField → MessageType
  | .timestamp | .amount | .nonce => .transactionRecord
  | .decimals => .token

/-- The description of the field. -/
def spec : IntegerField → FieldSpec
  | .timestamp => ⟨2, "timestamp", "timestamp", .int64⟩
  | .amount => ⟨7, "amount", "amount", .uint64⟩
  | .nonce => ⟨10, "nonce", "nonce", .uint64⟩
  | .decimals => ⟨3, "decimals", "decimals", .uint32⟩

/-- The smallest integer that the field has room for. -/
def low : IntegerField → Int
  | .timestamp => -2 ^ 63
  | .amount | .nonce | .decimals => 0

/-- The largest integer that the field has room for. -/
def high : IntegerField → Int
  | .timestamp => 2 ^ 63 - 1
  | .amount | .nonce => 2 ^ 64 - 1
  | .decimals => 2 ^ 32 - 1

/-- The value of the field in a message that has it. -/
def value? : IntegerField → Message → Option Int
  | .timestamp, .transactionRecord record => some record.timestamp.toInt
  | .amount, .transactionRecord record => some record.amount.toNat
  | .nonce, .transactionRecord record => some record.nonce.toNat
  | .decimals, .token token => some token.decimals.toNat
  | _, _ => none

/-- The message in which nothing else is set. -/
def message : IntegerField → Int → Message
  | .timestamp, n => .transactionRecord { timestamp := Int64.ofInt n }
  | .amount, n => .transactionRecord { amount := UInt64.ofNat n.toNat }
  | .nonce, n => .transactionRecord { nonce := UInt64.ofNat n.toNat }
  | .decimals, n => .token { decimals := UInt32.ofNat n.toNat }

/-- These are all the fields of an integer kind, in the order of declaration. -/
theorem eq_integer_fields :
    (MessageType.all.flatMap fun type =>
        (type.fields.filter fun spec => spec.kind ∈ [.int64, .uint64, .uint32]).map (type, ·))
      = [timestamp, amount, nonce, decimals].map fun field => (field.type, field.spec) := by
  decide

variable (field : IntegerField)

theorem fieldByKey?_name : field.type.fieldByKey? field.spec.name = some field.spec := by
  cases field <;> rfl

theorem value?_message {n : Int} (hlow : field.low ≤ n) (hhigh : n ≤ field.high) :
    field.value? (field.message n) = some n := by
  cases field with
  | timestamp =>
      simp only [low, high] at hlow hhigh
      simp only [value?, message]
      rw [Int64.toInt_ofInt_of_le hlow (by omega)]
  | amount | nonce =>
      simp only [low, high] at hlow hhigh
      have hfits : n.toNat < 2 ^ 64 := by omega
      simp only [value?, message, UInt64.toNat_ofNat', Nat.mod_eq_of_lt hfits]
      rw [Int.toNat_of_nonneg hlow]
  | decimals =>
      simp only [low, high] at hlow hhigh
      have hfits : n.toNat < 2 ^ 32 := by omega
      simp only [value?, message, UInt32.toNat_ofNat', Nat.mod_eq_of_lt hfits]
      rw [Int.toNat_of_nonneg hlow]

/-- The spelling of an integer as a number, in a text that gives the field and nothing else. -/
def numberText (n : Int) : String :=
  "\x7b\"" ++ field.spec.name ++ "\":" ++ toString n ++ "\x7d"

/-- The spelling of an integer as a string, in such a text. -/
def stringText (n : Int) : String :=
  "\x7b\"" ++ field.spec.name ++ "\":\"" ++ toString n ++ "\"\x7d"

/-- The integer that a number literal is taken for. Just below the signed 64-bit range that is the
lower end of the range. -/
def taken (n : Int) : Int :=
  if field = .timestamp ∧ -2 ^ 63 - 1024 ≤ n ∧ n < -2 ^ 63 then -2 ^ 63 else n

/-- What should become of an integer: it is in the field if there is room for it, and a fault of
the JSON if there is none. -/
def Reads (n : Int) (result : Except DecodeError Message) : Prop :=
  if field.low ≤ n ∧ n ≤ field.high then
    ∃ message, result = .ok message ∧ field.value? message = some n
  else ∃ error, result = .error (.json error)

end IntegerField

namespace Message

/-- A value without parts, of those that an integer field looks at. -/
inductive Plain : Json → Prop where
  | string (s : String) : Plain (.string s)
  | integer (n : Int) : Plain (.integer n)
  | float (x : Binary64) : Plain (.float x)

theorem Plain.normalScalar {value : Json} (h : Plain value) (kind : FieldKind) :
    Plain (normalScalar kind value) := by
  cases h with
  | string s => exact .string s
  | integer n => exact .integer n
  | float x =>
      unfold Message.normalScalar
      dsimp only
      split
      · exact .integer _
      · exact .float x

theorem Plain.fieldsOfValue {value : Json} (h : Plain value) (spec : FieldSpec) :
    fieldsOfValue spec value = scalarOfJson spec value := by
  cases h <;> rfl

/-- A member with a value that has no parts is read as an integer and put into the message. -/
theorem ofJson_member (field : IntegerField) (policy : KeyPolicy) {value : Json}
    (hvalue : Plain value) :
    ofJson field.type policy (.object [(field.spec.name, value)])
      = ((integerOfJson field.low field.high (normalScalar field.spec.kind value)).map
          field.message).mapError fun fault => .json (.data fault) := by
  have hstrict : ofJson field.type policy (.object [(field.spec.name, value)])
      = ofJsonLenient field.type (.object [(field.spec.name, value)]) := by
    cases hvalue <;> cases field <;> cases policy <;> rfl
  have hnormal : normal field.type (.object [(field.spec.name, value)])
      = .object [(field.spec.name, normalScalar field.spec.kind value)] := by
    cases hvalue <;> cases field <;> rfl
  rw [hstrict, ofJsonLenient, hnormal]
  have hplain := hvalue.normalScalar field.spec.kind
  generalize normalScalar field.spec.kind value = value' at hplain
  have hscalar : fieldsOfJson field.type (.object [(field.spec.name, value')])
      = (scalarOfJson field.spec value').map (· ++ []) := by
    simp only [fieldsOfJson, fieldsOfMembers, MessageType.declaredFieldByKey?_eq,
      field.fieldByKey?_name, List.not_mem_nil, if_false, hplain.fieldsOfValue]
    cases scalarOfJson field.spec value' <;> rfl
  rw [hscalar]
  cases field
  all_goals
    simp only [scalarOfJson, IntegerField.spec, IntegerField.low, IntegerField.high]
    cases integerOfJson _ _ value' <;> rfl

/-! ### Texts -/

theorem toList_toString (n : Int) : (toString n).toList = integerChars n := by
  cases n with
  | ofNat n =>
      have hrepr : toString (Int.ofNat n) = toString n := rfl
      rw [hrepr, Nat.toString_eq_ofList_toDigits, String.toList_ofList]
      rfl
  | negSucc n =>
      have hrepr : toString (Int.negSucc n) = "-" ++ toString (n + 1) := rfl
      rw [hrepr, Nat.toString_eq_ofList_toDigits, String.toList_append, String.toList_ofList,
        String.toList_ofList, integerChars, if_pos (Int.negSucc_lt_zero n)]
      rfl

/-- Neither a sign nor a digit needs an escape. -/
theorem spellsAll_integerChars (n : Int) : Json.SpellsAll (integerChars n) (integerChars n) := by
  have hdigit : ∀ c ∈ Decimal.digitsOf n.natAbs, c ≠ '"' ∧ c ≠ '\\' ∧ 0x20 ≤ c.toNat := by
    intro c hc
    have hc := Decimal.isDigit_of_mem_digitsOf hc
    simp only [Char.isDigit, Bool.and_eq_true, decide_eq_true_eq] at hc
    refine ⟨?_, ?_, Nat.le_trans (by decide) hc.1⟩
    · rintro rfl
      exact absurd hc.1 (by decide)
    · rintro rfl
      exact absurd hc.2 (by decide)
  refine Json.spellsAll_self ?_
  unfold integerChars
  split
  · exact List.forall_mem_cons.mpr ⟨by decide, hdigit⟩
  · exact hdigit

theorem spellsAll_of_all {cs : List Char}
    (h : (cs.all fun c => c ≠ '"' ∧ c ≠ '\\' ∧ 0x20 ≤ c.toNat) = true) : Json.SpellsAll cs cs :=
  Json.spellsAll_self fun c hc => of_decide_eq_true (List.all_eq_true.mp h c hc)

theorem spellsAll_name (field : IntegerField) :
    Json.SpellsAll field.spec.name.toList field.spec.name.toList :=
  spellsAll_of_all (by cases field <;> decide)

theorem parse_stringText (field : IntegerField) (n : Int) :
    Json.parse (field.stringText n)
      = .ok (.object [(field.spec.name, .string (String.ofList (integerChars n)))]) := by
  have hvalue := (Json.WritesScalar.string (spellsAll_integerChars n)).writes (Json.maxDepth - 1)
  have hread := Json.parse_of_writes Text.blanks_nil (hvalue.member (spellsAll_name field))
    Text.blanks_nil
  rw [String.ofList_toList] at hread
  rw [Json.parse, IntegerField.stringText]
  simp only [String.toList_append, toList_toString]
  simpa using hread

theorem parse_numberText (field : IntegerField) (n : Int) {outcome : Except Json.Fault Json.Number}
    (h : Json.readNumber (integerChars n ++ ['\x7d']) = outcome.map (·, ['\x7d'])) :
    Json.parse (field.numberText n)
      = outcome.map fun number => .object [(field.spec.name, number.toJson)] := by
  have hread := Json.parse_number_member (spellsAll_name field) (Json.integerChars_head n) h
  rw [String.ofList_toList] at hread
  rw [Json.parse, IntegerField.numberText]
  simp only [String.toList_append, toList_toString]
  simpa using hread

/-! ### What is read -/

section

variable (field : IntegerField) (policy : KeyPolicy) {n : Int} {value : Json}

theorem reads_of_ok (hvalue : Plain value)
    (h : integerOfJson field.low field.high (normalScalar field.spec.kind value) = .ok n)
    (hlow : field.low ≤ n) (hhigh : n ≤ field.high) :
    field.Reads n (ofJson field.type policy (.object [(field.spec.name, value)])) := by
  rw [ofJson_member field policy hvalue, h, IntegerField.Reads, if_pos ⟨hlow, hhigh⟩]
  exact ⟨field.message n, rfl, field.value?_message hlow hhigh⟩

theorem reads_of_error (hvalue : Plain value) {fault : DataFault}
    (h : integerOfJson field.low field.high (normalScalar field.spec.kind value) = .error fault)
    (hn : ¬ (field.low ≤ n ∧ n ≤ field.high)) :
    field.Reads n (ofJson field.type policy (.object [(field.spec.name, value)])) := by
  rw [ofJson_member field policy hvalue, h, IntegerField.Reads, if_neg hn]
  exact ⟨.data fault, rfl⟩

end

theorem reads_stringText (field : IntegerField) (policy : KeyPolicy) (n : Int) :
    field.Reads n (ofJsonText field.type policy (field.stringText n)) := by
  rw [ofJsonText, parse_stringText]
  have hread : integerOfJson field.low field.high
      (normalScalar field.spec.kind (.string (String.ofList (integerChars n))))
      = integerOfText field.low field.high (integerChars n) :=
    congrArg (integerOfText field.low field.high) String.toList_ofList
  by_cases hrange : field.low ≤ n ∧ n ≤ field.high
  · exact reads_of_ok field policy (.string _)
      (hread.trans (integerOfText_integerChars hrange.1 hrange.2)) hrange.1 hrange.2
  · have hlow : field.low ≤ 0 := by cases field <;> decide
    have hhigh : 0 ≤ field.high := by cases field <;> decide
    obtain ⟨fault, hfault⟩ := integerOfText_out_of_range (n := n) hlow hhigh (by omega)
    exact reads_of_error field policy (.string _) (hread.trans hfault) hrange

/-- A floating-point number beyond 64 bits stays one. -/
theorem wholeNumber?_beyond {x : Binary64} (hx : x.value < -2 ^ 63 ∨ 2 ^ 64 ≤ x.value)
    (kind : FieldKind) : wholeNumber? kind x = none := by
  refine Option.eq_none_iff_forall_ne_some.mpr fun n h => ?_
  obtain ⟨hlow, hhigh⟩ := bounds_of_mem_wholeRange (wholeNumber?_eq_some_iff.mp h).1
  exact hx.elim hlow.not_gt hhigh.not_ge

/-- The lower end of the signed range is in the range of the normal form, as an unsigned number
it is not. -/
theorem wholeNumber?_lowest {x : Binary64} (hx : x.value = -2 ^ 63) (kind : FieldKind) :
    wholeNumber? kind x = if kind = .int64 then some (-2 ^ 63) else none := by
  have hnone (h : x.value ∉ wholeRange kind) : wholeNumber? kind x = none :=
    Option.eq_none_iff_forall_ne_some.mpr fun n hn => h (wholeNumber?_eq_some_iff.mp hn).1
  cases kind with
  | int64 =>
      refine wholeNumber?_eq_some_iff.mpr ⟨?_, by rw [hx]; norm_num⟩
      rw [hx]
      exact ⟨le_rfl, by norm_num⟩
  | uint64 | uint32 => exact hnone fun hmem => absurd (hx ▸ hmem.1) (by norm_num)
  | _ => exact hnone (Set.notMem_empty _)

theorem integerOfJson_float {x : Binary64} {kind : FieldKind} (h : wholeNumber? kind x = none)
    (low high : Int) :
    integerOfJson low high (normalScalar kind (.float x)) = .error .noInteger := by
  simp only [normalScalar, h, integerOfJson]

theorem ofJsonText_numberText (field : IntegerField) (policy : KeyPolicy) {n : Int}
    {number : Json.Number}
    (h : Json.readNumber (integerChars n ++ ['\x7d']) = .ok (number, ['\x7d'])) :
    ofJsonText field.type policy (field.numberText n)
      = ofJson field.type policy (.object [(field.spec.name, number.toJson)]) := by
  rw [ofJsonText, @parse_numberText field n (.ok number) h]
  rfl

section

variable (field : IntegerField) (policy : KeyPolicy) {n : Int}

/-- A number that is read as it is written is put into the field if there is room for it. -/
theorem reads_of_integer
    (h : Json.readNumber (integerChars n ++ ['\x7d']) = .ok (.integer n, ['\x7d'])) :
    field.Reads n (ofJsonText field.type policy (field.numberText n)) := by
  rw [ofJsonText_numberText field policy h]
  by_cases hrange : field.low ≤ n ∧ n ≤ field.high
  · exact reads_of_ok field policy (.integer n) (if_pos hrange) hrange.1 hrange.2
  · exact reads_of_error field policy (.integer n) (if_neg hrange) hrange

/-- A number that is refused for its size is not in the range of any field. -/
theorem reads_of_outOfRange
    (h : Json.readNumber (integerChars n ++ ['\x7d']) = .error .numberOutOfRange)
    (hn : ¬ (field.low ≤ n ∧ n ≤ field.high)) :
    field.Reads n (ofJsonText field.type policy (field.numberText n)) := by
  rw [ofJsonText, @parse_numberText field n (.error .numberOutOfRange) h,
    IntegerField.Reads, if_neg hn]
  exact ⟨.text .numberOutOfRange, rfl⟩

/-- A number that is read as one beyond 64 bits is not in the range of any field. -/
theorem reads_of_beyond {x : Binary64}
    (h : Json.readNumber (integerChars n ++ ['\x7d']) = .ok (.float x, ['\x7d']))
    (hx : x.value < -2 ^ 63 ∨ 2 ^ 64 ≤ x.value) (hn : ¬ (field.low ≤ n ∧ n ≤ field.high)) :
    field.Reads n (ofJsonText field.type policy (field.numberText n)) := by
  rw [ofJsonText_numberText field policy h]
  exact reads_of_error field policy (.float x)
    (integerOfJson_float (wholeNumber?_beyond hx _) _ _) hn

/-- A number that is rounded to the lower end of the signed range is put into a timestamp. -/
theorem reads_of_rounded {x : Binary64} (hlow : -2 ^ 63 - 1024 ≤ n) (hhigh : n < -2 ^ 63)
    (h : Json.readNumber (integerChars n ++ ['\x7d']) = .ok (.float x, ['\x7d']))
    (hx : x.value = -2 ^ 63) :
    field.Reads (field.taken n) (ofJsonText field.type policy (field.numberText n)) := by
  have hwhole := wholeNumber?_lowest hx field.spec.kind
  rw [ofJsonText_numberText field policy h]
  by_cases hsigned : field = .timestamp
  · subst hsigned
    have hvalue : integerOfJson IntegerField.timestamp.low IntegerField.timestamp.high
        (normalScalar IntegerField.timestamp.spec.kind (.float x)) = .ok (-2 ^ 63) := by
      simp only [normalScalar, hwhole]
      rfl
    rw [IntegerField.taken, if_pos ⟨rfl, hlow, hhigh⟩]
    exact reads_of_ok .timestamp policy (.float x) hvalue (by decide) (by decide)
  · have hunsigned : field.spec.kind ≠ .int64 ∧ field.low = 0 := by
      cases field with
      | timestamp => exact absurd rfl hsigned
      | amount | nonce | decimals => exact ⟨by decide, rfl⟩
    rw [if_neg hunsigned.1] at hwhole
    rw [IntegerField.taken, if_neg fun h => hsigned h.1]
    exact reads_of_error field policy (.float x) (integerOfJson_float hwhole _ _) (by omega)

end

/-- **A number is read as the integer it is taken for.** -/
theorem reads_numberText (field : IntegerField) (policy : KeyPolicy) (n : Int) :
    field.Reads (field.taken n) (ofJsonText field.type policy (field.numberText n)) := by
  have hend : Json.EndsNumber ['\x7d'] := Json.endsNumber_cons (by decide)
  have hlow : -2 ^ 63 ≤ field.low := by cases field <;> decide
  have hhigh : field.high < 2 ^ 64 := by cases field <;> decide
  by_cases hgap : -2 ^ 63 - 1024 ≤ n ∧ n < -2 ^ 63
  · obtain ⟨x, hread, hx⟩ := Json.readNumber_rounded hgap.1 hgap.2 hend
    exact reads_of_rounded field policy hgap.1 hgap.2 hread hx
  · rw [IntegerField.taken, if_neg fun h => hgap h.2]
    by_cases hbeyond : 2 ^ 64 ≤ n
    · rcases Json.readNumber_beyond hbeyond hend with hread | ⟨x, hread, hx⟩
      · exact reads_of_outOfRange field policy hread (by omega)
      · exact reads_of_beyond field policy hread (.inr hx) (by omega)
    · by_cases hbelow : n < -2 ^ 63
      · rcases Json.readNumber_below (n := n) (by omega) hend with hread | ⟨x, hread, hx⟩
        · exact reads_of_outOfRange field policy hread (by omega)
        · exact reads_of_beyond field policy hread (.inl hx) (by omega)
      · exact reads_of_integer field policy
          (Json.readNumber_integerChars (by omega) (by omega) hend)

/-- The string that spells an integer is read as the integer, and the number that does as the
integer it is taken for. -/
theorem ofJsonText_integer (field : IntegerField) (policy : KeyPolicy) (n : Int) :
    field.Reads n (ofJsonText field.type policy (field.stringText n))
      ∧ field.Reads (field.taken n) (ofJsonText field.type policy (field.numberText n)) :=
  ⟨reads_stringText field policy n, reads_numberText field policy n⟩

/-- One below the signed range: refused as a string, and as a number taken for the lower end. -/
theorem ofJsonText_timestamp_below :
    (∃ error, ofJsonText .transactionRecord .lenient
        "\x7b\"timestamp\":\"-9223372036854775809\"\x7d" = .error (.json error))
      ∧ ∃ message, ofJsonText .transactionRecord .lenient
            "\x7b\"timestamp\":-9223372036854775809\x7d" = .ok message
          ∧ IntegerField.timestamp.value? message = some (-9223372036854775808) := by
  have hstring : IntegerField.timestamp.stringText (-9223372036854775809)
      = "\x7b\"timestamp\":\"-9223372036854775809\"\x7d" := by decide +kernel
  have hnumber : IntegerField.timestamp.numberText (-9223372036854775809)
      = "\x7b\"timestamp\":-9223372036854775809\x7d" := by decide +kernel
  constructor
  · have hread := reads_stringText .timestamp .lenient (-9223372036854775809)
    rwa [IntegerField.Reads, if_neg (by decide), hstring] at hread
  · have hread := reads_numberText .timestamp .lenient (-9223372036854775809)
    rwa [IntegerField.Reads, if_pos (by decide), hnumber] at hread

end Message

end NodeView
