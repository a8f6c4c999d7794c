import NodeView.Proofs.Json.Layout
import NodeView.Proofs.Json.NumberText
import NodeView.Proofs.Json.Order
/-!
# NodeView.Proofs.Json.Listing

The document that a text spells out, with the members of its objects as they are listed.

Reading a text keeps the last of several members with one key and brings them into ascending
order. What it is given is a document in which nothing is dropped and nothing is moved:
`Lists depth text document` says that the text spells it out, with arrays and objects nested at
most `depth` deep. Every text that is read spells out a document (`exists_document_of_parse`),
and what is read from it is the document with its keys in order (`SpellsOut.parse_eq`), so the
documents account for all texts.
-/

namespace NodeView.Json

open Text (Blanks exists_blanks)

/-! ### Documents -/

section

variable (Item : List Char → Json → Prop)

/-- A text that spells out an array or an object. -/
inductive ListsNested : List Char → Json → Prop where
  | emptyArray {blanks : List Char} (h : Blanks isBlank blanks) :
      ListsNested ('[' :: (blanks ++ [']'])) (.array [])
  | array {blanks text more : List Char} {value : Json} {values : List Json}
      (h : Blanks isBlank blanks) (hvalue : Item text value)
      (hmore : WritesElements Item more values) :
      ListsNested ('[' :: (blanks ++ (text ++ more))) (.array (value :: values))
  | emptyObject {blanks : List Char} (h : Blanks isBlank blanks) :
      ListsNested ('\x7b' :: (blanks ++ ['\x7d'])) (.object [])
  | object {blanks text more : List Char} {member : String × Json}
      {members : List (String × Json)} (h : Blanks isBlank blanks)
      (hmember : WritesMember Item text member) (hmore : WritesMembers Item more members) :
      ListsNested ('\x7b' :: (blanks ++ '"' :: (text ++ more))) (.object (member :: members))

end

/-- A text that spells out a document with arrays and objects nested at most `depth` deep. -/
def Lists : (depth : Nat) → List Char → Json → Prop
  | 0 => WritesScalar
  | depth + 1 => fun text document =>
    WritesScalar text document ∨ ListsNested (Lists depth) text document

/-- A text that spells out a document, with blanks around it. -/
def SpellsOut (text : String) (document : Json) : Prop :=
  ∃ blanks inner blanks', Blanks isBlank blanks ∧ Lists maxDepth inner document
    ∧ Blanks isBlank blanks' ∧ text.toList = blanks ++ (inner ++ blanks')

/-! ### Documents are read with their keys in order -/

theorem WritesScalar.sortKeys_eq {text : List Char} {value : Json} (h : WritesScalar text value) :
    value.sortKeys = value := by
  cases h with
  | number => rename_i n _; cases n <;> rfl
  | _ => rfl

section

variable {Item Item' : List Char → Json → Prop}

theorem WritesElements.sortItems {text : List Char} {values : List Json}
    (h : WritesElements Item text values)
    (hitem : ∀ text value, Item text value → Item' text value.sortKeys) :
    WritesElements Item' text (sortItems values) := by
  induction h with
  | nil h => exact .nil h
  | cons h h' hvalue _ ih => exact .cons h h' (hitem _ _ hvalue) ih

theorem WritesMember.sortKeys {text : List Char} {member : String × Json}
    (h : WritesMember Item text member)
    (hitem : ∀ text value, Item text value → Item' text value.sortKeys) :
    WritesMember Item' text (member.1, member.2.sortKeys) := by
  cases h with
  | colon hkey h h' hvalue => exact .colon hkey h h' (hitem _ _ hvalue)

theorem WritesMembers.sortMembers {text : List Char} {members : List (String × Json)}
    (h : WritesMembers Item text members)
    (hitem : ∀ text value, Item text value → Item' text value.sortKeys) :
    WritesMembers Item' text (sortMembers members) := by
  induction h with
  | nil h => exact .nil h
  | cons h h' hmember _ ih => exact .cons h h' (hmember.sortKeys hitem) ih

end

/-- What a text spells out, it writes with its keys in order. -/
theorem Lists.writes {depth : Nat} {text : List Char} {document : Json}
    (h : Lists depth text document) : Writes depth text document.sortKeys := by
  induction depth generalizing text document with
  | zero =>
      have hscalar : WritesScalar text document := h
      rw [hscalar.sortKeys_eq]
      exact hscalar
  | succ depth ih =>
      have hitem : ∀ text document, Lists depth text document →
          Writes depth text document.sortKeys := fun _ _ => ih
      rcases h with h | h
      · rw [h.sortKeys_eq]
        exact .inl h
      · cases h with
        | emptyArray h => exact .inr (.emptyArray h)
        | array h hvalue hmore =>
            exact .inr (.array h (ih hvalue) (hmore.sortItems hitem))
        | emptyObject h => exact .inr (.emptyObject h)
        | object h hmember hmore =>
            exact .inr (.object h (hmember.sortKeys hitem) (hmore.sortMembers hitem))

/-- A text is read as the document that it spells out, with its keys in order. -/
theorem SpellsOut.parse_eq {text : String} {document : Json} (h : SpellsOut text document) :
    parse text = .ok document.sortKeys := by
  obtain ⟨blanks, inner, blanks', hblanks, hinner, hblanks', htext⟩ := h
  rw [parse, htext]
  exact parse_of_writes hblanks hinner.writes hblanks'

/-! ### What is read spells out a document -/

theorem eq_of_readLiteral {value found : Json} {name text rest : List Char}
    (h : readLiteral value name text = .ok (found, rest)) :
    text = name ++ rest ∧ found = value := by
  induction name generalizing text with
  | nil =>
      cases h
      exact ⟨rfl, rfl⟩
  | cons n name ih =>
      cases text with
      | nil => cases h
      | cons c text =>
          rw [readLiteral] at h
          split at h
          · rename_i hc
            obtain ⟨rfl, rfl⟩ := ih h
            exact ⟨by rw [hc, List.cons_append], rfl⟩
          · cases h

/-- What is read from a text is what the text spells out, with its keys in order. -/
def Spelled (read : List Char → Reading Json) (Item : List Char → Json → Prop) : Prop :=
  ∀ {text value rest}, read text = .ok (value, rest) →
    ∃ front document, text = front ++ rest ∧ Item front document ∧ value = document.sortKeys

section

variable {read : List Char → Reading Json} {Item : List Char → Json → Prop}
  (hread : Spelled read Item)
include hread

/-- An item that is read behind blanks. -/
theorem Spelled.exists_item {text rest : List Char} {value : Json}
    (h : read (skipBlanks text) = .ok (value, rest)) :
    ∃ blanks front document, Blanks isBlank blanks ∧ text = blanks ++ (front ++ rest)
      ∧ Item front document ∧ value = document.sortKeys := by
  obtain ⟨blanks, hblanks, htext⟩ := exists_blanks (rfl : skipBlanks text = _)
  obtain ⟨front, document, hfront, hdocument, hvalue⟩ := hread h
  exact ⟨blanks, front, document, hblanks, hfront ▸ htext, hdocument, hvalue⟩

theorem Spelled.readElements {done values : List Json} {bound text rest : List Char}
    (h : readElements read done bound text = .ok (values, rest)) :
    ∃ front documents, text = front ++ rest ∧ WritesElements Item front documents
      ∧ values = done.reverse ++ sortItems documents := by
  induction bound generalizing done text with
  | nil => cases h
  | cons step bound ih =>
      unfold Json.readElements at h
      split at h
      · cases h
      · rename_i hend
        cases h
        obtain ⟨blanks, hblanks, htext⟩ := exists_blanks hend
        exact ⟨blanks ++ [']'], [], by simpa using htext, .nil hblanks, by simp [sortItems]⟩
      · rename_i behind hcomma
        obtain ⟨blanks, hblanks, htext⟩ := exists_blanks hcomma
        split at h
        · cases h
        · cases h
        · split at h
          · cases h
          · rename_i hitem
            obtain ⟨blanks', front, document, hblanks', rfl, hdocument, rfl⟩ :=
              hread.exists_item hitem
            obtain ⟨more, documents, rfl, hmore, rfl⟩ := ih h
            exact ⟨_, document :: documents, by simpa using htext,
              .cons hblanks hblanks' hdocument hmore, by simp [sortItems]⟩
      · cases h

theorem Spelled.readArray {values : List Json} {text rest : List Char}
    (h : readArray read text = .ok (values, rest)) :
    ∃ front documents, text = front ++ rest ∧ ListsNested Item ('[' :: front) (.array documents)
      ∧ values = sortItems documents := by
  unfold Json.readArray at h
  split at h
  · cases h
  · rename_i hend
    cases h
    obtain ⟨blanks, hblanks, htext⟩ := exists_blanks hend
    exact ⟨blanks ++ [']'], [], by simpa using htext, .emptyArray hblanks, rfl⟩
  · split at h
    · cases h
    · rename_i hitem
      obtain ⟨blanks', front, document, hblanks', rfl, hdocument, rfl⟩ := hread.exists_item hitem
      obtain ⟨more, documents, rfl, hmore, rfl⟩ := hread.readElements h
      exact ⟨_, document :: documents, by simp, .array hblanks' hdocument hmore, rfl⟩

theorem Spelled.readMember {member : String × Json} {text rest : List Char}
    (h : readMember read text = .ok (member, rest)) :
    ∃ front document, text = front ++ rest ∧ WritesMember Item front (member.1, document)
      ∧ member.2 = document.sortKeys := by
  unfold Json.readMember at h
  split at h
  · cases h
  · rename_i key after hkey
    obtain ⟨front, cs, rfl, hspells, rfl⟩ := exists_spelling_of_readString hkey
    split at h
    · cases h
    · rename_i hcolon
      obtain ⟨blanks, hblanks, hafter⟩ := exists_blanks hcolon
      split at h
      · cases h
      · rename_i hitem
        obtain ⟨blanks', text, document, hblanks', rfl, hdocument, rfl⟩ := hread.exists_item hitem
        cases h
        exact ⟨_, document, by simp [hafter], .colon hspells hblanks hblanks' hdocument, rfl⟩
    · cases h

theorem Spelled.readMembers {done members : List (String × Json)} {bound text rest : List Char}
    (h : readMembers read done bound text = .ok (members, rest)) :
    ∃ front documents, text = front ++ rest ∧ WritesMembers Item front documents
      ∧ members = done.reverse ++ sortMembers documents := by
  induction bound generalizing done text with
  | nil => cases h
  | cons step bound ih =>
      unfold Json.readMembers at h
      split at h
      · cases h
      · rename_i hend
        cases h
        obtain ⟨blanks, hblanks, htext⟩ := exists_blanks hend
        exact ⟨blanks ++ ['\x7d'], [], by simpa using htext, .nil hblanks, by simp [sortMembers]⟩
      · rename_i behind hcomma
        obtain ⟨blanks, hblanks, htext⟩ := exists_blanks hcomma
        split at h
        · cases h
        · cases h
        · rename_i hquote
          obtain ⟨blanks', hblanks', hbehind⟩ := exists_blanks hquote
          split at h
          · cases h
          · rename_i member behind hmember
            obtain ⟨front, document, rfl, hdocument, hvalue⟩ := hread.readMember hmember
            obtain ⟨more, documents, rfl, hmore, rfl⟩ := ih h
            refine ⟨_, (member.1, document) :: documents, by simpa [hbehind] using htext,
              .cons hblanks hblanks' hdocument hmore, ?_⟩
            simp [sortMembers, ← hvalue]
        · cases h
      · cases h

theorem Spelled.readObject {members : List (String × Json)} {text rest : List Char}
    (h : readObject read text = .ok (members, rest)) :
    ∃ front documents, text = front ++ rest
      ∧ ListsNested Item ('\x7b' :: front) (.object documents)
      ∧ members = sortMembers documents := by
  unfold Json.readObject at h
  split at h
  · cases h
  · rename_i hend
    cases h
    obtain ⟨blanks, hblanks, htext⟩ := exists_blanks hend
    exact ⟨blanks ++ ['\x7d'], [], by simpa using htext, .emptyObject hblanks, rfl⟩
  · rename_i hquote
    obtain ⟨blanks, hblanks, htext⟩ := exists_blanks hquote
    split at h
    · cases h
    · rename_i member behind hmember
      obtain ⟨front, document, rfl, hdocument, hvalue⟩ := hread.readMember hmember
      obtain ⟨more, documents, rfl, hmore, rfl⟩ := hread.readMembers h
      refine ⟨_, (member.1, document) :: documents, by simpa using htext,
        .object hblanks hdocument hmore, ?_⟩
      simp [sortMembers, ← hvalue]
  · cases h

end

/-- A value is read from a text without parts or from one of those that its parts are read from. -/
theorem exists_document_of_readValueWith {list : List Char → Reading (List Json)}
    {object : List Char → Reading (List (String × Json))} (Nested : List Char → Json → Prop)
    (hlist : ∀ {text items rest}, list text = .ok (items, rest) →
      ∃ front documents, text = front ++ rest ∧ Nested ('[' :: front) (.array documents)
        ∧ items = sortItems documents)
    (hobject : ∀ {text members rest}, object text = .ok (members, rest) →
      ∃ front documents, text = front ++ rest ∧ Nested ('\x7b' :: front) (.object documents)
        ∧ members = sortMembers documents)
    {text rest : List Char} {value : Json}
    (h : readValueWith list object text = .ok (value, rest)) :
    ∃ front document, text = front ++ rest
      ∧ (WritesScalar front document ∨ Nested front document) ∧ value = document.sortKeys := by
  unfold readValueWith at h
  split at h
  · cases h
  · obtain ⟨rfl, rfl⟩ := eq_of_readLiteral h
    exact ⟨_, .null, rfl, .inl .null, rfl⟩
  · obtain ⟨rfl, rfl⟩ := eq_of_readLiteral h
    exact ⟨_, .bool true, rfl, .inl .yes, rfl⟩
  · obtain ⟨rfl, rfl⟩ := eq_of_readLiteral h
    exact ⟨_, .bool false, rfl, .inl .no, rfl⟩
  · rename_i text
    cases hread : readString text with
    | error fault => simp [hread, Except.map] at h
    | ok reading =>
        rw [hread] at h
        cases h
        obtain ⟨front, cs, rfl, hspells, hs⟩ := exists_spelling_of_readString hread
        exact ⟨_, .string (String.ofList cs), by simp, .inl (.string hspells), by rw [hs]; rfl⟩
  · rename_i text
    cases hread : list text with
    | error fault => simp [hread, Except.map] at h
    | ok reading =>
        rw [hread] at h
        cases h
        obtain ⟨front, documents, rfl, hnested, hitems⟩ := hlist hread
        exact ⟨_, .array documents, rfl, .inr hnested, by rw [hitems]; rfl⟩
  · rename_i text
    cases hread : object text with
    | error fault => simp [hread, Except.map] at h
    | ok reading =>
        rw [hread] at h
        cases h
        obtain ⟨front, documents, rfl, hnested, hmembers⟩ := hobject hread
        exact ⟨_, .object documents, rfl, .inr hnested, by rw [hmembers]; rfl⟩
  · rename_i c text _ _ _ _ _ _
    split at h
    · cases hread : readNumber (c :: text) with
      | error fault => simp [hread, Except.map] at h
      | ok reading =>
          rw [hread] at h
          cases h
          obtain ⟨d, front, hfront, hd, hlocal⟩ := readNumber_ok hread
          have hscalar := WritesScalar.number ⟨⟨d, front, rfl, hd⟩, hlocal⟩
          exact ⟨_, _, hfront, .inl hscalar, hscalar.sortKeys_eq.symm⟩
    · cases h

theorem exists_document_of_readValue {depth : Nat} {text rest : List Char} {value : Json}
    (h : readValue depth text = .ok (value, rest)) :
    ∃ front document, text = front ++ rest ∧ Lists depth front document
      ∧ value = document.sortKeys := by
  induction depth generalizing text rest value with
  | zero =>
      obtain ⟨front, document, htext, hscalar | hnested, hvalue⟩ :=
        exists_document_of_readValueWith (fun _ _ => False) (fun hlist => by cases hlist)
          (fun hobject => by cases hobject) h
      · exact ⟨front, document, htext, hscalar, hvalue⟩
      · exact hnested.elim
  | succ depth ih =>
      have hread : Spelled (readValue depth) (Lists depth) := fun h => ih h
      exact exists_document_of_readValueWith _ hread.readArray hread.readObject h

/-- **Every text that is read spells out a document**, and what is read is the document with its
keys in order. -/
theorem exists_document_of_parse {text : String} {value : Json} (h : parse text = .ok value) :
    ∃ document, SpellsOut text document ∧ value = document.sortKeys := by
  unfold parse parseChars at h
  split at h
  · cases h
  · rename_i rest hread
    obtain ⟨inner, document, hinner, hdocument, rfl⟩ := exists_document_of_readValue hread
    obtain ⟨blanks, hblanks, htext⟩ := exists_blanks (rfl : skipBlanks text.toList = _)
    split at h
    · rename_i hend
      cases h
      obtain ⟨blanks', hblanks', hrest⟩ := exists_blanks hend
      rw [List.append_nil] at hrest
      rw [hinner, hrest] at htext
      exact ⟨document, ⟨blanks, inner, blanks', hblanks, hdocument, hblanks', htext⟩, rfl⟩
    · cases h

/-- What is read from a text has its keys in order, in all of its objects. -/
theorem sorted_of_parse {text : String} {value : Json} (h : parse text = .ok value) :
    value.Sorted := by
  obtain ⟨document, -, rfl⟩ := exists_document_of_parse h
  exact sorted_sortKeys document

end NodeView.Json
