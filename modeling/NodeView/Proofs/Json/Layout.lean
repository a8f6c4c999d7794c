import NodeView.Json.Parser
import NodeView.Proofs.Json.Number
import NodeView.Proofs.Json.Spelling
import NodeView.Text.Blank
/-!
# NodeView.Proofs.Json.Layout

The texts that write a JSON value, and that each of them is read.

A text may put blanks between its parts and spell strings as it likes, and it lists the members
of an object in any order and with any repetitions: `Writes depth text value` says that the text
is one for the value, with arrays and objects nested at most `depth` deep. Reading is complete
for these texts (`Writes.readValue`, `parse_of_writes`). The compact form is one of them
(`writes_compactChars`).
-/

namespace NodeView.Json

open Text (Blanks)

/-! ### Blanks -/

theorem skipBlanks_cons {c : Char} (h : isBlank c = false) (text : List Char) :
    skipBlanks (c :: text) = c :: text :=
  List.dropWhile_cons_of_neg (by simp [h])

theorem skipBlanks_comma (text : List Char) : skipBlanks (',' :: text) = ',' :: text :=
  skipBlanks_cons rfl text

theorem skipBlanks_colon (text : List Char) : skipBlanks (':' :: text) = ':' :: text :=
  skipBlanks_cons rfl text

theorem skipBlanks_quote (text : List Char) : skipBlanks ('"' :: text) = '"' :: text :=
  skipBlanks_cons rfl text

theorem skipBlanks_bracket (text : List Char) : skipBlanks (']' :: text) = ']' :: text :=
  skipBlanks_cons rfl text

theorem skipBlanks_brace (text : List Char) : skipBlanks ('\x7d' :: text) = '\x7d' :: text :=
  skipBlanks_cons rfl text

theorem skipBlanks_append {blanks : List Char} (h : Blanks isBlank blanks) (text : List Char) :
    skipBlanks (blanks ++ text) = skipBlanks text :=
  List.dropWhile_append_of_pos h

/-! ### Texts -/

/-- A text for a number, which is read wherever nothing behind it carries it on. -/
structure WritesNumber (text : List Char) (n : Number) : Prop where
  head : ∃ c more, text = c :: more ∧ startsNumber c = true
  read : ∀ rest, EndsNumber rest → readNumber (text ++ rest) = .ok (n, rest)

/-- A text for a value without parts. -/
inductive WritesScalar : List Char → Json → Prop where
  | null : WritesScalar ['n', 'u', 'l', 'l'] .null
  | yes : WritesScalar ['t', 'r', 'u', 'e'] (.bool true)
  | no : WritesScalar ['f', 'a', 'l', 's', 'e'] (.bool false)
  | number {text : List Char} {n : Number} (h : WritesNumber text n) : WritesScalar text n.toJson
  | string {text cs : List Char} (h : SpellsAll text cs) :
      WritesScalar ('"' :: (text ++ ['"'])) (.string (String.ofList cs))

section

variable (Item : List Char → Json → Prop)

/-- A text for what follows an element of an array: more elements, and the end. -/
inductive WritesElements : List Char → List Json → Prop where
  | nil {blanks : List Char} (h : Blanks isBlank blanks) : WritesElements (blanks ++ [']']) []
  | cons {blanks blanks' text more : List Char} {value : Json} {values : List Json}
      (h : Blanks isBlank blanks) (h' : Blanks isBlank blanks') (hvalue : Item text value)
      (hmore : WritesElements more values) :
      WritesElements (blanks ++ ',' :: (blanks' ++ (text ++ more))) (value :: values)

/-- A text for a member of an object, behind the quote that opens its key. -/
inductive WritesMember : List Char → String × Json → Prop where
  | colon {key cs blanks blanks' text : List Char} {value : Json} (hkey : SpellsAll key cs)
      (h : Blanks isBlank blanks) (h' : Blanks isBlank blanks') (hvalue : Item text value) :
      WritesMember (key ++ '"' :: (blanks ++ ':' :: (blanks' ++ text))) (String.ofList cs, value)

/-- A text for what follows a member of an object: more members, and the end. -/
inductive WritesMembers : List Char → List (String × Json) → Prop where
  | nil {blanks : List Char} (h : Blanks isBlank blanks) : WritesMembers (blanks ++ ['\x7d']) []
  | cons {blanks blanks' text more : List Char} {member : String × Json}
      {members : List (String × Json)} (h : Blanks isBlank blanks) (h' : Blanks isBlank blanks')
      (hmember : WritesMember Item text member) (hmore : WritesMembers more members) :
      WritesMembers (blanks ++ ',' :: (blanks' ++ '"' :: (text ++ more))) (member :: members)

/-- A text for an array or an object. -/
inductive WritesNested : List Char → Json → Prop where
  | emptyArray {blanks : List Char} (h : Blanks isBlank blanks) :
      WritesNested ('[' :: (blanks ++ [']'])) (.array [])
  | array {blanks text more : List Char} {value : Json} {values : List Json}
      (h : Blanks isBlank blanks) (hvalue : Item text value)
      (hmore : WritesElements Item more values) :
      WritesNested ('[' :: (blanks ++ (text ++ more))) (.array (value :: values))
  | emptyObject {blanks : List Char} (h : Blanks isBlank blanks) :
      WritesNested ('\x7b' :: (blanks ++ ['\x7d'])) (.object [])
  | object {blanks text more : List Char} {member : String × Json}
      {members : List (String × Json)} (h : Blanks isBlank blanks)
      (hmember : WritesMember Item text member) (hmore : WritesMembers Item more members) :
      WritesNested ('\x7b' :: (blanks ++ '"' :: (text ++ more)))
        (.object (Keyed.ofList (member :: members)))

end

/-- A text for a value with arrays and objects nested at most `depth` deep. -/
def Writes : (depth : Nat) → List Char → Json → Prop
  | 0 => WritesScalar
  | depth + 1 => fun text value => WritesScalar text value ∨ WritesNested (Writes depth) text value

/-! ### The first character -/

/-- A text starts a value if its first character is neither blank nor the end of an array. -/
def StartsValue (text : List Char) : Prop :=
  ∃ c more, text = c :: more ∧ isBlank c = false ∧ c ≠ ']'

theorem startsNumber_not_blank {c : Char} (h : startsNumber c = true) :
    isBlank c = false ∧ c ≠ ']' := by
  constructor
  · cases hblank : isBlank c with
    | false => rfl
    | true =>
        simp only [isBlank, Bool.or_eq_true, decide_eq_true_eq] at hblank
        rcases hblank with ((rfl | rfl) | rfl) | rfl <;> cases h
  · rintro rfl
    cases h

theorem WritesScalar.startsValue {text : List Char} {value : Json} (h : WritesScalar text value) :
    StartsValue text := by
  cases h with
  | null | yes | no | string => exact ⟨_, _, rfl, rfl, by decide⟩
  | number h =>
      obtain ⟨c, more, rfl, hc⟩ := h.head
      exact ⟨c, more, rfl, startsNumber_not_blank hc⟩

theorem Writes.startsValue {depth : Nat} {text : List Char} {value : Json}
    (h : Writes depth text value) : StartsValue text := by
  cases depth with
  | zero => exact WritesScalar.startsValue h
  | succ depth =>
      rcases h with h | h
      · exact h.startsValue
      · cases h <;> exact ⟨_, _, rfl, rfl, by decide⟩

theorem endsNumber_append {blanks : List Char} (h : Blanks isBlank blanks) {text : List Char}
    (htext : EndsNumber text) : EndsNumber (blanks ++ text) := by
  cases blanks with
  | nil => exact htext
  | cons c blanks =>
      have hc : isBlank c = true := h c List.mem_cons_self
      simp only [isBlank, Bool.or_eq_true, decide_eq_true_eq] at hc
      rcases hc with ((rfl | rfl) | rfl) | rfl <;> exact endsNumber_cons (by decide)

section

variable {Item : List Char → Json → Prop}

theorem WritesElements.endsNumber {text : List Char} {values : List Json}
    (h : WritesElements Item text values) (rest : List Char) : EndsNumber (text ++ rest) := by
  cases h with
  | nil h | cons h =>
      rw [List.append_assoc]
      exact endsNumber_append h (endsNumber_cons (by decide))

theorem WritesMembers.endsNumber {text : List Char} {members : List (String × Json)}
    (h : WritesMembers Item text members) (rest : List Char) : EndsNumber (text ++ rest) := by
  cases h with
  | nil h | cons h =>
      rw [List.append_assoc]
      exact endsNumber_append h (endsNumber_cons (by decide))

/-! ### Reading elements and members -/

/-- A reader that reads every text for an item, up to where the item ends. -/
structure ReadsItems (read : List Char → Reading Json) (Item : List Char → Json → Prop) :
    Prop where
  starts : ∀ {text value}, Item text value → StartsValue text
  reads : ∀ {text value}, Item text value → ∀ rest, EndsNumber rest →
    read (text ++ rest) = .ok (value, rest)

variable {read : List Char → Reading Json}

/-- In front of what follows an item, its text starts the item and is read as the item. -/
theorem ReadsItems.exists_start (hread : ReadsItems read Item) {text rest : List Char}
    {value : Json} (h : Item text value) (hrest : EndsNumber rest) :
    ∃ c tail, text ++ rest = c :: tail ∧ isBlank c = false ∧ c ≠ ']'
      ∧ read (c :: tail) = .ok (value, rest) := by
  obtain ⟨c, tail, rfl, hblank, hc⟩ := hread.starts h
  exact ⟨c, tail ++ rest, rfl, hblank, hc, hread.reads h rest hrest⟩

theorem WritesElements.length_lt {text : List Char} {values : List Json}
    (h : WritesElements Item text values) : values.length < text.length := by
  induction h with
  | nil => simp
  | cons _ _ _ _ ih =>
      simp only [List.length_append, List.length_cons]
      omega

theorem WritesMembers.length_lt {text : List Char} {members : List (String × Json)}
    (h : WritesMembers Item text members) : members.length < text.length := by
  induction h with
  | nil => simp
  | cons _ _ _ _ ih =>
      simp only [List.length_append, List.length_cons]
      omega

theorem WritesElements.readElements {text : List Char} {values : List Json}
    (h : WritesElements Item text values) (hread : ReadsItems read Item) (done : List Json)
    {bound : List Char} (hbound : values.length < bound.length) (rest : List Char) :
    readElements read done bound (text ++ rest) = .ok (done.reverse ++ values, rest) := by
  induction h generalizing done bound with
  | nil h =>
      cases bound with
      | nil => cases hbound
      | cons step bound =>
          simp only [Json.readElements, List.append_assoc, skipBlanks_append h,
            List.singleton_append, skipBlanks_bracket, List.append_nil]
  | @cons blanks blanks' text more value values h h' hvalue hmore ih =>
      cases bound with
      | nil => cases hbound
      | cons step bound =>
          obtain ⟨c, tail, htext, hblank, hc, hitem⟩ :=
            hread.exists_start hvalue (hmore.endsNumber rest)
          simp only [Json.readElements, List.append_assoc, skipBlanks_append h, List.cons_append,
            skipBlanks_comma, skipBlanks_append h', htext, skipBlanks_cons hblank]
          -- Behind a comma something has to follow, and not the end of the array.
          split
          · rename_i heq
            cases heq
          · rename_i heq
            exact absurd (List.cons.inj heq).1 hc
          · rw [hitem]
            simp only [ih _ (Nat.lt_of_succ_lt_succ hbound), List.reverse_cons, List.append_assoc,
              List.singleton_append]

theorem readArray_empty {blanks : List Char} (h : Blanks isBlank blanks) (rest : List Char) :
    readArray read (blanks ++ ']' :: rest) = .ok ([], rest) := by
  simp only [readArray, skipBlanks_append h, skipBlanks_bracket]

theorem WritesElements.readArray {blanks text more : List Char} {value : Json}
    {values : List Json} (hread : ReadsItems read Item) (h : Blanks isBlank blanks)
    (hvalue : Item text value) (hmore : WritesElements Item more values) (rest : List Char) :
    readArray read (blanks ++ (text ++ (more ++ rest))) = .ok (value :: values, rest) := by
  obtain ⟨c, tail, htext, hblank, hc, hitem⟩ :=
    hread.exists_start hvalue (hmore.endsNumber rest)
  have hbound : values.length < (more ++ rest).length := by
    have := hmore.length_lt
    rw [List.length_append]
    omega
  simp only [Json.readArray, skipBlanks_append h, htext, skipBlanks_cons hblank]
  split
  · rename_i heq
    cases heq
  · rename_i heq
    exact absurd (List.cons.inj heq).1 hc
  · rw [hitem]
    exact hmore.readElements hread [value] hbound rest

theorem WritesMember.readMember {text : List Char} {member : String × Json}
    (h : WritesMember Item text member) (hread : ReadsItems read Item) {rest : List Char}
    (hrest : EndsNumber rest) : readMember read (text ++ rest) = .ok (member, rest) := by
  cases h with
  | @colon key cs blanks blanks' text value hkey h h' hvalue =>
      obtain ⟨c, tail, htext, hblank, -, hitem⟩ := hread.exists_start hvalue hrest
      simp only [Json.readMember, List.append_assoc, List.cons_append, hkey.readString,
        skipBlanks_append h, skipBlanks_colon, skipBlanks_append h', htext,
        skipBlanks_cons hblank, hitem]

theorem WritesMembers.readMembers {text : List Char} {members : List (String × Json)}
    (h : WritesMembers Item text members) (hread : ReadsItems read Item)
    (done : List (String × Json)) {bound : List Char} (hbound : members.length < bound.length)
    (rest : List Char) :
    readMembers read done bound (text ++ rest) = .ok (done.reverse ++ members, rest) := by
  induction h generalizing done bound with
  | nil h =>
      cases bound with
      | nil => cases hbound
      | cons step bound =>
          simp only [Json.readMembers, List.append_assoc, skipBlanks_append h,
            List.singleton_append, skipBlanks_brace, List.append_nil]
  | cons h h' hmember hmore ih =>
      cases bound with
      | nil => cases hbound
      | cons step bound =>
          simp only [Json.readMembers, List.append_assoc, skipBlanks_append h, List.cons_append,
            skipBlanks_comma, skipBlanks_append h', skipBlanks_quote,
            hmember.readMember hread (hmore.endsNumber rest),
            ih _ (Nat.lt_of_succ_lt_succ hbound), List.reverse_cons, List.nil_append]

theorem readObject_empty {blanks : List Char} (h : Blanks isBlank blanks) (rest : List Char) :
    readObject read (blanks ++ '\x7d' :: rest) = .ok ([], rest) := by
  simp only [readObject, skipBlanks_append h, skipBlanks_brace]

theorem WritesMembers.readObject {blanks text more : List Char} {member : String × Json}
    {members : List (String × Json)} (hread : ReadsItems read Item) (h : Blanks isBlank blanks)
    (hmember : WritesMember Item text member) (hmore : WritesMembers Item more members)
    (rest : List Char) :
    readObject read (blanks ++ '"' :: (text ++ (more ++ rest)))
      = .ok (member :: members, rest) := by
  have hbound : members.length < (more ++ rest).length := by
    have := hmore.length_lt
    rw [List.length_append]
    omega
  simp only [Json.readObject, skipBlanks_append h, skipBlanks_quote,
    hmember.readMember hread (hmore.endsNumber rest)]
  exact hmore.readMembers hread [member] hbound rest

end

/-! ### Reading values -/

theorem readValueWith_number {c : Char} (hc : startsNumber c = true)
    (list : List Char → Reading (List Json))
    (object : List Char → Reading (List (String × Json))) (text : List Char) :
    readValueWith list object (c :: text)
      = (readNumber (c :: text)).map fun (n, rest) => (n.toJson, rest) := by
  rw [readValueWith]
  · exact if_pos hc
  -- None of the characters that start another value starts a number.
  all_goals
    rintro rfl
    cases hc

theorem WritesScalar.readValueWith {text : List Char} {value : Json}
    (h : WritesScalar text value) (list : List Char → Reading (List Json))
    (object : List Char → Reading (List (String × Json))) {rest : List Char}
    (hrest : EndsNumber rest) : readValueWith list object (text ++ rest) = .ok (value, rest) := by
  cases h with
  | null | yes | no => rfl
  | string h =>
      simp only [Json.readValueWith, List.cons_append, List.append_assoc, List.nil_append,
        h.readString, Except.map]
  | number h =>
      obtain ⟨c, more, rfl, hc⟩ := h.head
      have hread := h.read rest hrest
      rw [List.cons_append] at hread ⊢
      rw [readValueWith_number hc, hread]
      rfl

theorem Writes.readValue {depth : Nat} {text : List Char} {value : Json}
    (h : Writes depth text value) {rest : List Char} (hrest : EndsNumber rest) :
    readValue depth (text ++ rest) = .ok (value, rest) := by
  induction depth generalizing text value rest with
  | zero => exact WritesScalar.readValueWith h _ _ hrest
  | succ depth ih =>
      have hread : ReadsItems (Json.readValue depth) (Writes depth) :=
        ⟨Writes.startsValue, fun hitem _ hrest => ih hitem hrest⟩
      rcases h with h | h
      · exact h.readValueWith _ _ hrest
      · rw [Json.readValue]
        cases h with
        | emptyArray h =>
            simp only [Json.readValueWith, List.cons_append, List.append_assoc,
              List.nil_append, readArray_empty h, Except.map]
        | array h hvalue hmore =>
            simp only [Json.readValueWith, List.cons_append, List.append_assoc,
              WritesElements.readArray hread h hvalue hmore, Except.map]
        | emptyObject h =>
            simp only [Json.readValueWith, List.cons_append, List.append_assoc,
              List.nil_append, readObject_empty h, Except.map]
            rfl
        | object h hmember hmore =>
            simp only [Json.readValueWith, List.cons_append, List.append_assoc,
              WritesMembers.readObject hread h hmember hmore, Except.map]

/-- A text for a value is read as the value, also with blanks around it. -/
theorem parse_of_writes {blanks text blanks' : List Char} {value : Json} (h : Blanks isBlank blanks)
    (htext : Writes maxDepth text value) (h' : Blanks isBlank blanks') :
    parseChars (blanks ++ (text ++ blanks')) = .ok value := by
  obtain ⟨c, tail, hstart, hblank, -⟩ := htext.startsValue
  have hrest : EndsNumber blanks' := by
    have := endsNumber_append h' endsNumber_nil
    rwa [List.append_nil] at this
  have hread := htext.readValue hrest
  have hend : skipBlanks blanks' = [] := by
    have := skipBlanks_append h' []
    rwa [List.append_nil] at this
  rw [hstart, List.cons_append] at hread
  simp only [parseChars, skipBlanks_append h, hstart, List.cons_append, skipBlanks_cons hblank,
    hread, hend]

/-! ### Numbers as members -/

theorem readValue_number {text rest : List Char}
    (hstart : ∃ c more, text = c :: more ∧ startsNumber c = true) (depth : Nat) :
    readValue depth (text ++ rest)
      = (readNumber (text ++ rest)).map fun (n, rest) => (n.toJson, rest) := by
  obtain ⟨c, more, rfl, hc⟩ := hstart
  cases depth <;> exact readValueWith_number hc _ _ _

/-- An object with a number as its only member is read as the number is, and refused as it is. -/
theorem parse_number_member {key cs text : List Char} (hkey : SpellsAll key cs)
    (hstart : ∃ c more, text = c :: more ∧ startsNumber c = true)
    {outcome : Except Fault Number}
    (h : readNumber (text ++ ['\x7d']) = outcome.map (·, ['\x7d'])) :
    parseChars ('\x7b' :: '"' :: (key ++ '"' :: ':' :: (text ++ ['\x7d'])))
      = outcome.map fun n => .object [(String.ofList cs, n.toJson)] := by
  have hvalue : skipBlanks (text ++ ['\x7d']) = text ++ ['\x7d'] := by
    obtain ⟨c, more, rfl, hc⟩ := hstart
    exact skipBlanks_cons (startsNumber_not_blank hc).1 _
  have hread : readValue maxDepth ('\x7b' :: '"' :: (key ++ '"' :: ':' :: (text ++ ['\x7d'])))
      = outcome.map fun n => (.object [(String.ofList cs, n.toJson)], []) := by
    rw [maxDepth, readValue]
    simp only [readValueWith, readObject, skipBlanks_quote, readMember, hkey.readString,
      skipBlanks_colon, hvalue, readValue_number hstart, h]
    cases outcome <;> rfl
  rw [parseChars, skipBlanks_cons rfl, hread]
  cases outcome <;> rfl

end NodeView.Json
