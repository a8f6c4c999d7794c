import Mathlib.Data.List.Infix
import NodeView.Layer.EnvironmentValue
import NodeView.Proofs.Text.Quotation
/-!
# NodeView.Proofs.Layer.Value

The grammar of the values that the texts of variables write.

`Value depth` is a value with the blanks around it, with lists and tables nested less than `depth`
deep. What its first characters do not tell to be of another kind is bare, and runs up to the next
separator. Whatever the reader takes from the front of a text is such a value
(`takesOnly_readValue`), since each of its parts takes only what the grammar has in its place.
-/

namespace NodeView.EnvironmentValue

open Text (Blanks exists_blanks)

/-! ### Grammar -/

/-- What tells, in front of a value, that it is not bare. -/
def markers : List (List Char) := ["true".toList, "false".toList, ['"'], ['\'']]

/-- A bare text: it has no separators, and nothing in front tells it to be of another kind. -/
structure Bare (text : List Char) : Prop where
  separators : ∀ c ∈ text, isSeparator c = false
  markers : ∀ marker ∈ markers, ¬ marker <+: text
  blank : ∀ c ∈ text.head?, Text.isAsciiBlank c = false

/-- The key of a member, bare or quoted. -/
inductive Key : List Char → Prop
  | bare {text : List Char} (hne : text ≠ []) (h : ∀ c ∈ text, Text.isKeyChar c = true) : Key text
  | quoted {text : List Char} (h : Text.Quotation text) : Key ('"' :: text)

section

variable (Item : List Char → Prop)

/-- A key with its value. -/
inductive Member : List Char → Prop
  | mk {front key back text : List Char} (hfront : Blanks Text.isAsciiBlank front)
      (hkey : Key key) (hback : Blanks Text.isAsciiBlank back) (htext : Item text) :
      Member (front ++ (key ++ (back ++ '=' :: text)))

/-- Items with commas between them, up to the character that closes them. A comma may follow the
last item. -/
inductive Listing (close : Char) : List Char → Prop
  | close : Listing close [close]
  | last {text : List Char} (htext : Item text) : Listing close (text ++ [close])
  | more {text rest : List Char} (htext : Item text) (hrest : Listing close rest) :
      Listing close (text ++ ',' :: rest)

/-- A value that its first characters tell to be a truth value, a letter, a quoted text, a list
or a table. -/
inductive Marked : List Char → Prop
  | truth : Marked "true".toList
  | falsehood : Marked "false".toList
  | letter (c : Char) : Marked ['\'', c, '\'']
  | quoted {text : List Char} (h : Text.Quotation text) : Marked ('"' :: text)
  | list {text : List Char} (h : Listing Item ']' text) : Marked ('[' :: text)
  | table {text : List Char} (h : Listing (Member Item) '\x7d' text) : Marked ('\x7b' :: text)

/-- A value with the blanks around it. Those behind a bare text are part of it. -/
inductive Spaced : List Char → Prop
  | bare {front text : List Char} (hfront : Blanks Text.isAsciiBlank front) (h : Bare text) :
      Spaced (front ++ text)
  | marked {front text back : List Char} (hfront : Blanks Text.isAsciiBlank front)
      (h : Marked Item text) (hback : Blanks Text.isAsciiBlank back) :
      Spaced (front ++ (text ++ back))

end

/-- A value with the blanks around it, in which lists and tables are nested less than `depth`
deep. -/
def Value : (depth : Nat) → List Char → Prop
  | 0 => fun _ => False
  | depth + 1 => Spaced (Value depth)

/-! ### Blanks and separators -/

theorem eq_of_isAsciiBlank {c : Char} (h : Text.isAsciiBlank c = true) :
    c = ' ' ∨ c = '\t' ∨ c = '\n' ∨ c = '\x0c' ∨ c = '\r' := by
  simpa [Text.isAsciiBlank, or_assoc] using h

theorem eq_of_isSeparator {c : Char} (h : isSeparator c = true) :
    c = ',' ∨ c = '\x7b' ∨ c = '\x7d' ∨ c = '[' ∨ c = ']' := by
  simpa [isSeparator] using h

theorem isKeyChar_of_isAsciiBlank {c : Char} (h : Text.isAsciiBlank c = true) :
    Text.isKeyChar c = false := by
  rcases eq_of_isAsciiBlank h with rfl | rfl | rfl | rfl | rfl <;> rfl

theorem isAsciiBlank_of_isSeparator {c : Char} (h : isSeparator c = true) :
    Text.isAsciiBlank c = false := by
  rcases eq_of_isSeparator h with rfl | rfl | rfl | rfl | rfl <;> rfl

theorem head?_skipBlanks (text : List Char) :
    ∀ c ∈ (skipBlanks text).head?, Text.isAsciiBlank c = false := by
  intro c hc
  have hnot := List.head?_dropWhile_not Text.isAsciiBlank text
  rw [skipBlanks] at hc
  rwa [hc] at hnot

theorem skipBlanks_of_head? {text : List Char}
    (h : ∀ c ∈ text.head?, Text.isAsciiBlank c = false) : skipBlanks text = text := by
  cases text with
  | nil => rfl
  | cons c text => rw [skipBlanks, List.dropWhile_cons_of_neg (by simp [h c rfl])]

theorem skipBlanks_append {blanks rest : List Char} (hblanks : Blanks Text.isAsciiBlank blanks)
    (hrest : ∀ c ∈ rest.head?, Text.isAsciiBlank c = false) :
    skipBlanks (blanks ++ rest) = rest := by
  rw [skipBlanks, List.dropWhile_append_of_pos hblanks]
  exact skipBlanks_of_head? hrest

/-! ### What is read is a value -/

/-- What a reader takes from the front of a text is always of one form. -/
def TakesOnly {α : Type} (read : List Char → Option (α × List Char)) (Item : List Char → Prop) :
    Prop :=
  ∀ {text value rest}, read text = some (value, rest) → ∃ front, text = front ++ rest ∧ Item front

theorem takesOnly_readText : TakesOnly readText Text.Quotation := by
  intro text s rest h
  rw [readText, Option.bind_eq_bind, Option.bind_eq_some_iff] at h
  obtain ⟨⟨read, behind⟩, hread, h⟩ := h
  dsimp only at h
  have hbehind : behind = rest := by
    split at h <;> cases h <;> rfl
  subst hbehind
  exact Text.exists_quotation hread

theorem takesOnly_readKey : TakesOnly readKey Key := by
  intro text key rest h
  rw [readKey.eq_def] at h
  split at h
  · obtain ⟨front, rfl, hfront⟩ := takesOnly_readText h
    exact ⟨'"' :: front, rfl, .quoted hfront⟩
  · dsimp only at h
    split at h
    · cases h
    · rename_i hne
      cases h
      exact ⟨_, List.takeWhile_append_dropWhile.symm, .bare hne
        (List.all_eq_true.mp List.all_takeWhile)⟩

section

variable {α : Type} {Item : List Char → Prop}

theorem TakesOnly.readItemsFrom {item : List Char → Option (α × List Char)}
    (hitem : TakesOnly item Item) {close : Char} {done values : List α}
    {bound text rest : List Char}
    (h : readItemsFrom item close done bound text = some (values, rest)) :
    ∃ front, text = front ++ rest ∧ Listing Item close front := by
  induction bound generalizing done text with
  | nil => cases h
  | cons step bound ih =>
      rw [EnvironmentValue.readItemsFrom.eq_def] at h
      dsimp only at h
      split at h
      · cases h
      · rename_i c behind
        split at h
        · rename_i hclose
          cases h
          exact ⟨[c], rfl, hclose ▸ .close⟩
        · split at h
          · rename_i hvalue
            obtain ⟨front, hfront, htext⟩ := hitem hvalue
            obtain ⟨more, rfl, hmore⟩ := ih h
            exact ⟨_, by rw [hfront]; simp, .more htext hmore⟩
          · rename_i hvalue
            obtain ⟨front, hfront, htext⟩ := hitem hvalue
            split at h
            · rename_i hclose
              cases h
              subst hclose
              exact ⟨_, by rw [hfront]; simp, .last htext⟩
            · cases h
          · cases h

theorem TakesOnly.readMember {value : List Char → Option (Entry × List Char)}
    (hvalue : TakesOnly value Item) : TakesOnly (readMember value) (Member Item) := by
  intro text member rest h
  rw [EnvironmentValue.readMember, Option.bind_eq_bind, Option.bind_eq_some_iff] at h
  obtain ⟨⟨key, behind⟩, hkey, h⟩ := h
  obtain ⟨front, hfront, htext⟩ := exists_blanks (rfl : skipBlanks text = _)
  obtain ⟨name, hname, hread⟩ := takesOnly_readKey hkey
  dsimp only at h
  split at h
  · rename_i after hequals
    rw [Option.bind_eq_bind, Option.bind_eq_some_iff] at h
    obtain ⟨⟨entry, last⟩, hentry, h⟩ := h
    cases h
    obtain ⟨inner, rfl, hinner⟩ := hvalue hentry
    obtain ⟨back, hback, hbehind⟩ := exists_blanks hequals
    exact ⟨_, by rw [htext, hname, hbehind]; simp, .mk hfront hread hback hinner⟩
  · cases h

theorem isSeparator_of_head?_dropWhile (text : List Char) :
    ∀ c ∈ (text.dropWhile fun c => ! isSeparator c).head?, isSeparator c = true := by
  intro c hc
  have hnot := List.head?_dropWhile_not (fun c => ! isSeparator c) text
  rw [hc] at hnot
  simpa using hnot

theorem skipBlanks_of_separator {text : List Char} (h : ∀ c ∈ text.head?, isSeparator c = true) :
    skipBlanks text = text :=
  skipBlanks_of_head? fun c hc => isAsciiBlank_of_isSeparator (h c hc)

/-- Behind a bare value nothing is skipped. -/
theorem TakesOnly.readStart {value : List Char → Option (Entry × List Char)}
    (hvalue : TakesOnly value Item) {text rest : List Char} {entry : Entry}
    (hblank : ∀ c ∈ text.head?, Text.isAsciiBlank c = false)
    (h : readStart value text = some (entry, rest)) :
    ∃ front, text = front ++ rest ∧
      (Marked Item front ∨ Bare front ∧ skipBlanks rest = rest) := by
  rw [EnvironmentValue.readStart.eq_def] at h
  split at h
  · cases h
    exact ⟨_, rfl, .inl .truth⟩
  · cases h
    exact ⟨_, rfl, .inl .falsehood⟩
  · obtain ⟨⟨members, behind⟩, hmembers, h⟩ := Option.map_eq_some_iff.mp h
    cases h
    obtain ⟨front, rfl, hfront⟩ := TakesOnly.readItemsFrom hvalue.readMember hmembers
    exact ⟨_, rfl, .inl (.table hfront)⟩
  · obtain ⟨⟨items, behind⟩, hitems, h⟩ := Option.map_eq_some_iff.mp h
    cases h
    obtain ⟨front, rfl, hfront⟩ := hvalue.readItemsFrom hitems
    exact ⟨_, rfl, .inl (.list hfront)⟩
  · obtain ⟨⟨s, behind⟩, hs, h⟩ := Option.map_eq_some_iff.mp h
    cases h
    obtain ⟨front, rfl, hfront⟩ := takesOnly_readText hs
    exact ⟨_, rfl, .inl (.quoted hfront)⟩
  · cases h
    exact ⟨_, rfl, .inl (.letter _)⟩
  · cases h
  · rename_i htrue hfalse htable hlist hquote hletter hapostrophe
    cases h
    refine ⟨_, List.takeWhile_append_dropWhile.symm, .inr ⟨⟨?_, ?_, ?_⟩,
      skipBlanks_of_separator (isSeparator_of_head?_dropWhile text)⟩⟩
    · intro c hc
      simpa using List.all_eq_true.mp List.all_takeWhile c hc
    · intro marker hmarker hstart
      obtain ⟨behind, hbehind⟩ := hstart.trans <| List.takeWhile_prefix _
      simp only [EnvironmentValue.markers, List.mem_cons, List.not_mem_nil, or_false] at hmarker
      rcases hmarker with rfl | rfl | rfl | rfl
      · exact htrue behind hbehind.symm
      · exact hfalse behind hbehind.symm
      · exact hquote behind hbehind.symm
      · exact hapostrophe behind hbehind.symm
    · intro c hc
      refine hblank c ?_
      cases text with
      | nil => cases hc
      | cons d text =>
          rw [List.takeWhile_cons] at hc
          split at hc
          · exact hc
          · cases hc

end

/-- What is read is a value. -/
theorem takesOnly_readValue (depth : Nat) : TakesOnly (readValue depth) (Value depth) := by
  induction depth with
  | zero =>
      intro text value rest h
      cases h
  | succ depth ih =>
      intro text value rest h
      obtain ⟨⟨entry, behind⟩, hstart, h⟩ := Option.map_eq_some_iff.mp h
      cases h
      obtain ⟨front, hfront, htext⟩ := exists_blanks (rfl : skipBlanks text = _)
      obtain ⟨inner, hinner, hmarked | ⟨hbare, hbehind⟩⟩ :=
        TakesOnly.readStart ih (head?_skipBlanks text) hstart
      · obtain ⟨back, hback, hrest⟩ := exists_blanks (rfl : skipBlanks behind = _)
        refine ⟨_, ?_, Spaced.marked hfront hmarked hback⟩
        rw [htext, hinner]
        simpa using hrest
      · refine ⟨_, ?_, Spaced.bare hfront hbare⟩
        rw [hbehind, List.append_assoc, ← hinner, ← htext]

end NodeView.EnvironmentValue
