import NodeView.Proofs.Json.Literal
import NodeView.Proofs.Message.Integers
import NodeView.Proofs.Message.Parts
/-!
# NodeView.Proofs.Message.Fractions

Integers in a JSON text that are written with a fraction or an exponent.

Such a number becomes a floating-point number, and only that is looked at: it is put into the field
if it is an integer that the field has room for, and refused otherwise (`reads_float`). So a literal
that is rounded is judged by what it is rounded to. For a short literal that is the same
(`Json.Literal.Short`); a long one may be taken for an integer that it is not, but for none that is
far from it. This goes for a literal anywhere in a text: the part of the message at its place has
the field as it stands in that part alone (`value?_of_float`).
-/

namespace NodeView

open Wire (Field)

namespace IntegerField

variable (field : IntegerField)

/-- What should become of a number: it is in the field if it is an integer that the field has room
for, and a fault of the JSON otherwise. -/
def ReadsExactly (v : ℚ) (result : Except DecodeError Message) : Prop :=
  (∃ n : Int, v = n ∧ (field.low ≤ n ∧ n ≤ field.high)
      ∧ ∃ message, result = .ok message ∧ field.value? message = some n)
    ∨ (∀ n : Int, v = n → ¬ (field.low ≤ n ∧ n ≤ field.high))
      ∧ ∃ error, result = .error (.json error)

/-- What becomes of a number that is rounded: an integer near it is in the field, or it is a fault
of the JSON. -/
def ReadsNearly (v : ℚ) (result : Except DecodeError Message) : Prop :=
  (∃ n : Int, |n - v| ≤ |v| / 2 ^ 49 + 2 ^ (-1073 : Int)
      ∧ ∃ message, result = .ok message ∧ field.value? message = some n)
    ∨ ∃ error, result = .error (.json error)

/-- What the field may hold for a literal: an integer that it has room for, which is near what the
literal stands for, and no other than that if the literal is short. -/
structure MayHold (literal : Json.Literal) (n : Int) : Prop where
  range : field.low ≤ n ∧ n ≤ field.high
  near : |n - literal.value| ≤ |literal.value| / 2 ^ 49 + 2 ^ (-1073 : Int)
  exact : literal.Short → literal.value = n

/-- The field with an integer as its value. -/
def wire : IntegerField → Int → Field
  | .timestamp, n => .int64 2 (Int64.ofInt n)
  | .amount, n => .uint64 7 (UInt64.ofNat n.toNat)
  | .nonce, n => .uint64 10 (UInt64.ofNat n.toNat)
  | .decimals, n => .uint32 3 (UInt32.ofNat n.toNat)

/-- A text that gives the field and nothing else, with a literal as its value. -/
def literalText (literal : Json.Literal) : String :=
  "\x7b\"" ++ field.spec.name ++ "\":" ++ String.ofList literal.chars ++ "\x7d"

theorem bounds : -2 ^ 63 ≤ field.low ∧ field.high < 2 ^ 64 := by
  cases field <;> decide

/-- An integer that a field has room for is in the range of the normal form. -/
theorem wholeNumber?_eq {x : Binary64} {n : Int} (hx : x.value = n)
    (hrange : field.low ≤ n ∧ n ≤ field.high) :
    Message.wholeNumber? field.spec.kind x = some n := by
  refine Message.wholeNumber?_eq_some_iff.mpr ⟨?_, hx⟩
  rw [hx]
  obtain ⟨hlow, hhigh⟩ := hrange
  cases field with
  | timestamp =>
      simp only [low, high] at hlow hhigh
      exact ⟨by exact_mod_cast hlow, by exact_mod_cast (by omega : n < 2 ^ 63)⟩
  | amount | nonce | decimals =>
      simp only [low, high] at hlow hhigh
      exact ⟨by exact_mod_cast hlow, by exact_mod_cast (by omega : n < 2 ^ 64)⟩

/-- Another field leaves an integer of a transaction as it is. -/
theorem value?_absorb_record {other : Field} (h : other.number ≠ field.spec.number)
    (record : TransactionRecord) :
    field.value? (.transactionRecord (record.absorb other))
      = field.value? (.transactionRecord record) := by
  cases other with
  | int64 k v =>
      have hk : k ≠ field.spec.number := h
      rw [TransactionRecord.absorb_int64]
      cases field <;> simp_all [value?, spec]
  | uint64 k v =>
      have hk : k ≠ field.spec.number := h
      rw [TransactionRecord.absorb_uint64]
      cases field <;> simp_all [value?, spec]
  | text =>
      rw [TransactionRecord.absorb_text]
      cases field <;> rfl
  | message =>
      rw [TransactionRecord.absorb_message]
      cases field <;> rfl
  | entry =>
      rw [TransactionRecord.absorb_entry]
      cases field <;> rfl
  | uint32 => rfl
  | unknown => rfl

/-- Another field leaves an integer of a token as it is. -/
theorem value?_absorb_token {other : Field} (h : other.number ≠ field.spec.number)
    (token : Token) : field.value? (.token (token.absorb other)) = field.value? (.token token) := by
  cases other with
  | uint32 k v =>
      have hk : k ≠ field.spec.number := h
      rw [Token.absorb_uint32]
      cases field <;> simp_all [value?, spec]
  | text =>
      rw [Token.absorb_text]
      cases field <;> rfl
  | _ => rfl

/-- The last occurrence of a field counts, if no other field has its number. -/
theorem value?_ofFields {n : Int} (hrange : field.low ≤ n ∧ n ≤ field.high)
    {front back : List Field} (hback : ∀ other ∈ back, other.number ≠ field.spec.number) :
    field.value? (Message.ofFields field.type (front ++ ([field.wire n] ++ back))) = some n := by
  rw [← field.value?_message hrange.1 hrange.2]
  -- What follows leaves the field as it is.
  have hrecord : ∀ record : TransactionRecord,
      field.value? (.transactionRecord (back.foldl TransactionRecord.absorb record))
        = field.value? (.transactionRecord record) := fun record =>
    List.foldlRecOn (motive := fun after =>
      field.value? (.transactionRecord after) = field.value? (.transactionRecord record)) back _ rfl
      fun after hafter other hother =>
        (field.value?_absorb_record (hback other hother) after).trans hafter
  have htoken : ∀ token : Token,
      field.value? (.token (back.foldl Token.absorb token)) = field.value? (.token token) :=
    fun token =>
    List.foldlRecOn (motive := fun after =>
      field.value? (.token after) = field.value? (.token token)) back _ rfl
      fun after hafter other hother =>
        (field.value?_absorb_token (hback other hother) after).trans hafter
  cases field with
  | decimals =>
      simp only [type, Message.ofFields, List.foldl_append, htoken]
      rfl
  | timestamp | amount | nonce =>
      simp only [type, Message.ofFields, List.foldl_append, hrecord]
      rfl

end IntegerField

namespace Message

section

variable (field : IntegerField) (policy : KeyPolicy)

/-- A floating-point number is judged by its value. -/
theorem reads_float (x : Binary64) :
    field.ReadsExactly x.value
      (ofJson field.type policy (.object [(field.spec.name, .float x)])) := by
  cases hwhole : wholeNumber? field.spec.kind x with
  | none =>
      refine .inr ⟨fun n hx hrange => ?_, ?_⟩
      · rw [field.wholeNumber?_eq hx hrange] at hwhole
        cases hwhole
      · rw [ofJson_member field policy (.float x), integerOfJson_float hwhole]
        exact ⟨_, rfl⟩
  | some n =>
      have hx := (wholeNumber?_eq_some_iff.mp hwhole).2
      rw [ofJson_member field policy (.float x)]
      simp only [normalScalar, hwhole, integerOfJson]
      by_cases hrange : field.low ≤ n ∧ n ≤ field.high
      · rw [if_pos hrange]
        exact .inl ⟨n, hx, hrange, field.message n, rfl, field.value?_message hrange.1 hrange.2⟩
      · rw [if_neg hrange]
        refine .inr ⟨fun m hm => ?_, _, rfl⟩
        have hsame : n = m := by exact_mod_cast hx.symm.trans hm
        exact hsame ▸ hrange

theorem parse_literalText (literal : Json.Literal) :
    Json.parse (field.literalText literal)
      = literal.outcome.map fun number => .object [(field.spec.name, number.toJson)] := by
  have hend : Json.EndsNumber ['\x7d'] := Json.endsNumber_cons (by decide)
  have hread := Json.parse_number_member (spellsAll_name field) literal.chars_head
    (literal.readNumber_chars hend)
  rw [String.ofList_toList] at hread
  rw [Json.parse, IntegerField.literalText]
  simp only [String.toList_append, String.toList_ofList]
  simpa using hread

/-- The text is read as its literal is, and refused as it is. -/
theorem ofJsonText_literalText (literal : Json.Literal) :
    ofJsonText field.type policy (field.literalText literal)
      = match literal.outcome with
        | .error fault => .error (.json (.text fault))
        | .ok number => ofJson field.type policy (.object [(field.spec.name, number.toJson)]) := by
  rw [ofJsonText, parse_literalText]
  cases literal.outcome <;> rfl

variable {literal : Json.Literal} (hlength : literal.chars.length < 2 ^ 30)
include hlength

/-- **Whatever literal is read as an integer is near the integer.** -/
theorem readsNearly_literalText :
    field.ReadsNearly literal.value
      (ofJsonText field.type policy (field.literalText literal)) := by
  rw [ofJsonText_literalText]
  split
  · exact .inr ⟨_, rfl⟩
  · rename_i number hread
    obtain ⟨x, rfl, hsign, hnear⟩ := literal.outcome_within hlength hread
    rcases reads_float field policy x with ⟨n, hx, -, hmessage⟩ | ⟨-, herror⟩
    · refine .inl ⟨n, ?_, hmessage⟩
      rw [← hx, literal.abs_value_sub hsign, literal.abs_value, ← one_div_mul_eq_div]
      exact hnear.abs_sub_le
    · exact .inr herror

/-- **A short literal is read as the integer that it stands for, and refused otherwise.** -/
theorem readsExactly_literalText (h : literal.Short) :
    field.ReadsExactly literal.value
      (ofJsonText field.type policy (field.literalText literal)) := by
  rw [ofJsonText_literalText]
  have hbounds := field.bounds
  by_cases hvalue : ∃ n : Int, literal.value = n ∧ field.low ≤ n ∧ n ≤ field.high
  · -- The literal stands for an integer in range, which is not rounded.
    obtain ⟨n, hn, hrange⟩ := hvalue
    have hmagnitude : literal.magnitude = n.natAbs := by
      rw [← literal.abs_value, hn, Nat.cast_natAbs, Int.cast_abs]
    obtain ⟨x, hread, hx⟩ := h.outcome_exact hlength hmagnitude (by omega)
    rw [hread, ← hx]
    exact reads_float field policy x
  · have hnone : ∀ n : Int, literal.value = n → ¬ (field.low ≤ n ∧ n ≤ field.high) :=
      fun n hn hrange => hvalue ⟨n, hn, hrange⟩
    refine .inr ⟨hnone, ?_⟩
    split
    · exact ⟨_, rfl⟩
    · rename_i number hread
      obtain ⟨x, rfl, -⟩ := literal.outcome_within hlength hread
      rcases reads_float field policy x with ⟨n, hx, hrange, -⟩ | ⟨-, herror⟩
      · -- A short literal that is read as an integer in range stands for it.
        exact absurd hrange (hnone n (h.outcome_whole hlength hread hx (by omega)))
      · exact herror

end

/-! ### A literal in a larger text -/

section

variable (field : IntegerField)

/-- What is read from a floating-point number is the integer that it is. -/
theorem fieldsOfValue_float {x : Binary64} {mine : List Field}
    (h : fieldsOfValue field.spec (normalValue field.spec.kind (.float x)) = .ok mine) :
    ∃ n : Int, x.value = n ∧ (field.low ≤ n ∧ n ≤ field.high) ∧ mine = [field.wire n] := by
  have hscalar : ∀ value, scalarOfJson field.spec value
      = (integerOfJson field.low field.high value).map fun n => [field.wire n] := by
    intro value
    cases field <;> rfl
  have hnormal : normalValue field.spec.kind (.float x) = normalScalar field.spec.kind (.float x) :=
    rfl
  have hplain := (Plain.float x).normalScalar field.spec.kind
  rw [hnormal, hplain.fieldsOfValue, hscalar] at h
  obtain ⟨n, hn, rfl⟩ := exists_of_map_eq_ok h
  cases hwhole : wholeNumber? field.spec.kind x with
  | none =>
      rw [integerOfJson_float hwhole] at hn
      cases hn
  | some m =>
      simp only [normalScalar, hwhole, integerOfJson] at hn
      split at hn
      · rename_i hrange
        cases hn
        exact ⟨_, (wholeNumber?_eq_some_iff.mp hwhole).2, hrange, rfl⟩
      · cases hn

variable {field}

/-- An integer field that is given by a floating-point number, anywhere in a value that is read,
holds the integer that the number is. -/
theorem value?_of_float {type : MessageType} {policy : KeyPolicy} {value : Json}
    {message : Message} (h : ofJson type policy value = .ok message) {path : List Step}
    {members : List (String × Json)} (hobject : ObjectAt type value path field.type members)
    {key : String} {x : Binary64} (hmember : (key, .float x) ∈ members)
    (hkey : field.type.fieldByKey? key = some field.spec) :
    ∃ part n, message.part? path = some part ∧ field.value? part = some n
      ∧ x.value = n ∧ field.low ≤ n ∧ n ≤ field.high := by
  obtain ⟨part, hpart, hread⟩ := hobject.exists_part (ofJson_ok h)
  obtain ⟨front, mine, back, rfl, hmine, -, hback⟩ := exists_of_member hread hmember hkey rfl
  obtain ⟨n, hx, hrange, rfl⟩ := fieldsOfValue_float field hmine
  exact ⟨_, n, hpart, field.value?_ofFields hrange hback, hx, hrange⟩

/-- Reading a text does not fail but for the JSON, unless it is strict. -/
theorem error_of_ofJsonText_lenient {type : MessageType} {text : String} {error : DecodeError}
    (h : ofJsonText type .lenient text = .error error) : ∃ fault, error = .json fault := by
  unfold ofJsonText at h
  split at h
  · cases h
    exact ⟨_, rfl⟩
  · unfold ofJson ofJsonLenient at h
    simp only at h
    split at h
    · cases h
      exact ⟨_, rfl⟩
    · cases h

variable {literal : Json.Literal} (hlength : literal.chars.length < 2 ^ 30)
include hlength

/-- What a literal becomes where it stands for an integer field, anywhere in a text that is read. -/
theorem mayHold_of_ofJsonText {type : MessageType} {policy : KeyPolicy} {text : String}
    {value : Json} {message : Message} (hparse : Json.parse text = .ok value)
    (h : ofJsonText type policy text = .ok message) {path : List Step}
    {members : List (String × Json)} (hobject : ObjectAt type value path field.type members)
    {key : String} {number : Json.Number} (hmember : (key, number.toJson) ∈ members)
    (hkey : field.type.fieldByKey? key = some field.spec)
    (hwrites : Json.WritesNumber literal.chars number) :
    ∃ part n, message.part? path = some part ∧ field.value? part = some n
      ∧ field.MayHold literal n := by
  have houtcome := literal.writesNumber_iff.mp hwrites
  obtain ⟨x, rfl, hsign, hnear⟩ := literal.outcome_within hlength houtcome
  rw [ofJsonText, hparse] at h
  obtain ⟨part, n, hpart, hfield, hx, hrange⟩ := value?_of_float h hobject hmember hkey
  have hbounds := field.bounds
  refine ⟨part, n, hpart, hfield, hrange, ?_, fun hshort => ?_⟩
  · rw [← hx, literal.abs_value_sub hsign, literal.abs_value, ← one_div_mul_eq_div]
    exact hnear.abs_sub_le
  · exact hshort.outcome_whole hlength houtcome hx (by omega)

end

/-- **Literals with a fraction or an exponent are read nearly, and short ones exactly.** No integer
is read that is off what the literal stands for by more than one part in `2 ^ 49`, or by more than
the smallest numbers of the format. A short literal is read as exactly the number that it stands
for if that is an integer that the field has room for, and refused if it is not. Where the literal
stands anywhere in a larger text, the text is refused, or the part of the message at that place
holds such an integer. -/
theorem ofJsonText_literal (field : IntegerField) (policy : KeyPolicy) (literal : Json.Literal)
    (hlength : literal.chars.length < 2 ^ 30) :
    field.ReadsNearly literal.value (ofJsonText field.type policy (field.literalText literal))
      ∧ (literal.Short → field.ReadsExactly literal.value
          (ofJsonText field.type policy (field.literalText literal)))
      ∧ ∀ type text value path members key number, Json.parse text = .ok value →
        ObjectAt type value path field.type members → (key, Json.Number.toJson number) ∈ members →
        field.type.fieldByKey? key = some field.spec →
        Json.WritesNumber literal.chars number →
        (∃ message part n, ofJsonText type policy text = .ok message
            ∧ message.part? path = some part ∧ field.value? part = some n
            ∧ field.MayHold literal n)
          ∨ ∃ error, ofJsonText type policy text = .error error
            ∧ (policy = .lenient → ∃ fault, error = .json fault) := by
  refine ⟨readsNearly_literalText field policy hlength,
    readsExactly_literalText field policy hlength, ?_⟩
  intro type text value path members key number hparse hobject hmember hkey hwrites
  cases hread : ofJsonText type policy text with
  | error error =>
      refine .inr ⟨error, rfl, ?_⟩
      rintro rfl
      exact error_of_ofJsonText_lenient hread
  | ok message =>
      obtain ⟨part, n, hplace⟩ :=
        mayHold_of_ofJsonText hlength hparse hread hobject hmember hkey hwrites
      exact .inl ⟨message, part, n, rfl, hplace⟩

/-- The literal `1.8e1` is short, so it is read as 18, also in the token of a transaction. -/
theorem ofJsonText_literal_decimals :
    let literal : Json.Literal :=
      ⟨false, 1, ['8'], some ⟨false, none, ['1'], by decide, List.all_eq_true.mp rfl⟩,
        List.all_eq_true.mp rfl, by decide⟩
    let text := "\x7b\"token\":\x7b\"decimals\":1.8e1\x7d\x7d"
    let record : TransactionRecord := { token := some { decimals := 18 } }
    literal.chars = "1.8e1".toList ∧ literal.Short ∧ literal.value = 18
      ∧ IntegerField.decimals.ReadsExactly literal.value
          (ofJsonText .token .strict (IntegerField.decimals.literalText literal))
      ∧ (ofJsonText .transactionRecord .strict text).toOption = some (.transactionRecord record)
      ∧ ∃ part n, (transactionRecord record).part? [⟨"token", 0⟩] = some part
          ∧ IntegerField.decimals.value? part = some n
          ∧ IntegerField.decimals.MayHold literal n := by
  intro literal text record
  have hvalue : literal.value = 18 := by
    rw [Json.Literal.value_eq_div (n := 18) (k := 0) rfl (by decide) (by decide)]
    norm_num
  have hmagnitude : literal.magnitude = 18 := hvalue
  have hshort : literal.Short := by
    refine ⟨by decide, .inr ?_, .inl ?_⟩
    · rw [hmagnitude]
      exact le_trans Json.normal_le_one (by norm_num)
    · rw [hmagnitude]
      norm_num
  have hlength : literal.chars.length < 2 ^ 30 := by decide
  obtain ⟨-, hexact, hanywhere⟩ := ofJsonText_literal .decimals .strict literal hlength
  have hread : (ofJsonText .transactionRecord .strict text).toOption
      = some (.transactionRecord record) := by
    decide +kernel
  refine ⟨by decide, hshort, hvalue, hexact hshort, hread, ?_⟩
  obtain ⟨x, hx, -⟩ := hshort.outcome_exact hlength (m := 18) hmagnitude (by decide)
  have hwrites := literal.writesNumber_iff.mpr hx
  have hkey : Json.SpellsAll "token".toList "token".toList := spellsAll_of_all (by decide)
  have hinner := ((Json.WritesScalar.number hwrites).writes (Json.maxDepth - 2)).member
    (spellsAll_name .decimals)
  have htext : '\x7b' :: '"' :: ("token".toList ++ '"' :: ':' :: (('\x7b' :: '"'
      :: (IntegerField.decimals.spec.name.toList ++ '"' :: ':' :: (literal.chars ++ ['\x7d'])))
        ++ ['\x7d'])) = text.toList := by
    decide +kernel
  have hparse := Json.parse_of_writes Text.blanks_nil (hinner.member hkey) Text.blanks_nil
  rw [List.nil_append, List.append_nil, htext, String.ofList_toList, String.ofList_toList] at hparse
  rcases hanywhere .transactionRecord text _ [⟨"token", 0⟩] _ "decimals" (.float x) hparse
    (.token List.mem_cons_self .root) List.mem_cons_self rfl hwrites with
    ⟨message, part, n, hok, hplace⟩ | ⟨error, herror, -⟩
  · rw [hok] at hread
    cases hread
    exact ⟨part, n, hplace⟩
  · rw [herror] at hread
    cases hread

/-- The literal `1.00000000000000001` stands for no integer, and it is taken for 1; the literal
`9007199254740993.0` is taken for one more than it stands for. -/
theorem ofJsonText_literal_rounded :
    (∃ literal : Json.Literal,
        IntegerField.amount.literalText literal = "\x7b\"amount\":1.00000000000000001\x7d"
          ∧ ∀ n : Int, literal.value ≠ n)
      ∧ (ofJsonText .transactionRecord .lenient "\x7b\"amount\":1.00000000000000001\x7d").toOption
        = some (.transactionRecord { amount := 1 })
      ∧ (∃ literal : Json.Literal,
        IntegerField.amount.literalText literal = "\x7b\"amount\":9007199254740993.0\x7d"
          ∧ literal.value = 9007199254740993)
      ∧ (ofJsonText .transactionRecord .lenient "\x7b\"amount\":9007199254740993.0\x7d").toOption
        = some (.transactionRecord { amount := 9007199254740994 }) := by
  refine ⟨⟨⟨false, 1, "00000000000000001".toList, none, List.all_eq_true.mp rfl, by decide⟩,
      ?_, ?_⟩, ?_,
    ⟨⟨false, 9007199254740993, ['0'], none, List.all_eq_true.mp rfl, by decide⟩, ?_, ?_⟩, ?_⟩
  · decide +kernel
  · intro n hn
    rw [Json.Literal.value_eq_div (n := 100000000000000001) (k := 17) rfl (by decide +kernel)
      (by decide +kernel), div_eq_iff (by norm_num)] at hn
    have hwhole : (100000000000000001 : Int) = n * 10 ^ 17 := by exact_mod_cast hn
    omega
  · decide +kernel
  · decide +kernel
  · rw [Json.Literal.value_eq_div (n := 90071992547409930) (k := 1) rfl (by decide +kernel)
      (by decide +kernel)]
    norm_num
  · decide +kernel

end Message

end NodeView
