import NodeView.Proofs.Json.Layout
import NodeView.Proofs.Json.Order
/-!
# NodeView.Proofs.Json.Printed

What is written for a JSON value is read as the value.

Reading brings the members of objects into order, keeps whole numbers of 64 bits only, and goes
127 levels deep. So the value read is the written one with its keys in order, provided that the
written one is `Printable`; this goes for the compact form (`parse_compact`) and for the pretty
one, whose line ends and indents are blanks (`parse_pretty`).
-/

namespace NodeView.Json

open Text (Blanks blanks_nil)

/-! ### Values that survive -/

mutual

/-- A value whose numbers are read back from what is written for them, and whose arrays and
objects are nested at most `depth` deep. -/
def Printable : Json → (depth : Nat) → Prop
  | .integer n, _ => -2 ^ 63 ≤ n ∧ n < 2 ^ 64
  | .float x, _ => WritesNumber (floatLayout.chars x) (.float x)
  | .array _, 0 | .object _, 0 => False
  | .array items, depth + 1 => PrintableItems items depth
  | .object members, depth + 1 => PrintableMembers members depth
  | _, _ => True

/-- All of some values survive. -/
def PrintableItems : List Json → (depth : Nat) → Prop
  | [], _ => True
  | item :: items, depth => item.Printable depth ∧ PrintableItems items depth

/-- The values of some members survive. -/
def PrintableMembers : List (String × Json) → (depth : Nat) → Prop
  | [], _ => True
  | (_, value) :: members, depth => value.Printable depth ∧ PrintableMembers members depth

end

theorem printable_natCast {n : Nat} (h : n < 2 ^ 64) (depth : Nat) :
    (Json.integer n).Printable depth := by
  have hrange : -2 ^ 63 ≤ (n : Int) ∧ (n : Int) < 2 ^ 64 := by omega
  simpa only [Printable] using hrange

theorem printableMembers_iff {members : List (String × Json)} {depth : Nat} :
    PrintableMembers members depth ↔ ∀ member ∈ members, member.2.Printable depth := by
  induction members with
  | nil => simp [PrintableMembers]
  | cons member members ih => simp [PrintableMembers, ih]

mutual

/-- The order of the members is of no consequence. -/
theorem printable_sortKeys : ∀ {value : Json} {depth : Nat}, value.Printable depth →
    value.sortKeys.Printable depth
  | .null, _, _ | .bool _, _, _ | .string _, _, _ => by simp only [sortKeys, Printable]
  | .integer _, _, h | .float _, _, h => h
  | .array _, _ + 1, h => printableItems_sortItems h
  | .object members, depth + 1, h => by
      have hmembers : PrintableMembers (sortMembers members) depth :=
        printableMembers_sortMembers h
      refine printableMembers_iff.mpr fun member hmember => ?_
      exact printableMembers_iff.mp hmembers member (Keyed.mem_of_mem_ofList hmember)

theorem printableItems_sortItems : ∀ {items : List Json} {depth : Nat},
    PrintableItems items depth → PrintableItems (sortItems items) depth
  | [], _, _ => trivial
  | _ :: _, _, h => ⟨printable_sortKeys h.1, printableItems_sortItems h.2⟩

theorem printableMembers_sortMembers : ∀ {members : List (String × Json)} {depth : Nat},
    PrintableMembers members depth → PrintableMembers (sortMembers members) depth
  | [], _, _ => trivial
  | _ :: _, _, h => ⟨printable_sortKeys h.1, printableMembers_sortMembers h.2⟩

end

/-! ### Texts for parts of a value -/

theorem WritesScalar.writes {text : List Char} {value : Json} (h : WritesScalar text value)
    (depth : Nat) : Writes depth text value := by
  cases depth with
  | zero => exact h
  | succ depth => exact .inl h

/-- An object with one member, without blanks. -/
theorem Writes.member {depth : Nat} {key cs text : List Char} {value : Json}
    (hkey : SpellsAll key cs) (h : Writes depth text value) :
    Writes (depth + 1) ('\x7b' :: '"' :: (key ++ '"' :: ':' :: (text ++ ['\x7d'])))
      (.object [(String.ofList cs, value)]) := by
  have hobject := WritesNested.object blanks_nil (.colon hkey blanks_nil blanks_nil h)
    (.nil blanks_nil)
  rw [List.append_assoc, List.cons_append] at hobject
  exact .inr hobject

theorem writesNumber_integerChars {n : Int} (hlow : -2 ^ 63 ≤ n) (hhigh : n < 2 ^ 64) :
    WritesNumber (integerChars n) (.integer n) :=
  ⟨integerChars_head n, fun _ hrest => readNumber_integerChars hlow hhigh hrest⟩

theorem writesScalar_stringChars (s : String) : WritesScalar (stringChars s) (.string s) := by
  have h := WritesScalar.string (spellsAll_flatMap s.toList)
  rwa [String.ofList_toList] at h

/-- A member whose key is spelled as strings are written. -/
theorem writesMember_stringChars {Item : List Char → Json → Prop} {blanks text : List Char}
    {value : Json} (key : String) (hblanks : Blanks isBlank blanks) (h : Item text value) :
    WritesMember Item (key.toList.flatMap stringChar ++ '"' :: ':' :: (blanks ++ text))
      (key, value) := by
  have hmember := WritesMember.colon (spellsAll_flatMap key.toList) blanks_nil hblanks h
  rwa [String.ofList_toList] at hmember

/-! ### Compact form -/

/-- The compact form of what follows an element of an array. -/
def compactElements : List Json → List Char
  | [] => [']']
  | item :: items => ',' :: compactItems (item :: items)

/-- The compact form of what follows a member of an object. -/
def compactFurther : List (String × Json) → List Char
  | [] => ['\x7d']
  | member :: members => ',' :: compactMembers (member :: members)

theorem compactItems_cons (item : Json) (items : List Json) :
    compactItems (item :: items) = item.compactChars ++ compactElements items := by
  cases items <;> rfl

theorem compactMembers_cons (key : String) (value : Json) (members : List (String × Json)) :
    compactMembers ((key, value) :: members)
      = '"' :: (key.toList.flatMap stringChar ++ '"' :: ':' :: value.compactChars
          ++ compactFurther members) := by
  cases members <;> simp [compactMembers, compactFurther, stringChars]

mutual

/-- The compact form of a value is a text for it with its keys in order. -/
theorem writes_compactChars : ∀ (value : Json) (depth : Nat), value.Printable depth →
    Writes depth value.compactChars value.sortKeys
  | .null, depth, _ => WritesScalar.null.writes depth
  | .bool true, depth, _ => WritesScalar.yes.writes depth
  | .bool false, depth, _ => WritesScalar.no.writes depth
  | .integer n, depth, h => (WritesScalar.number (writesNumber_integerChars h.1 h.2)).writes depth
  | .float x, depth, h => (WritesScalar.number (n := .float x) h).writes depth
  | .string s, depth, _ => (writesScalar_stringChars s).writes depth
  | .array [], _ + 1, _ => .inr (.emptyArray blanks_nil)
  | .array (item :: items), depth + 1, h => by
      have harray := WritesNested.array blanks_nil (writes_compactChars item depth h.1)
        (writesElements_compact items depth h.2)
      rw [List.nil_append, ← compactItems_cons] at harray
      exact .inr harray
  | .object [], _ + 1, _ => .inr (.emptyObject blanks_nil)
  | .object ((key, value) :: members), depth + 1, h => by
      have hobject := WritesNested.object blanks_nil
        (writesMember_stringChars key blanks_nil (writes_compactChars value depth h.1))
        (writesMembers_compact members depth h.2)
      rw [List.nil_append, List.nil_append, ← compactMembers_cons] at hobject
      exact .inr hobject

/-- The compact form of what follows an element is a text for the elements behind it. -/
theorem writesElements_compact : ∀ (items : List Json) (depth : Nat), PrintableItems items depth →
    WritesElements (Writes depth) (compactElements items) (sortItems items)
  | [], _, _ => .nil blanks_nil
  | item :: items, depth, h => by
      have hmore := WritesElements.cons blanks_nil blanks_nil
        (writes_compactChars item depth h.1) (writesElements_compact items depth h.2)
      rwa [List.nil_append, List.nil_append, ← compactItems_cons] at hmore

/-- The compact form of what follows a member is a text for the members behind it. -/
theorem writesMembers_compact : ∀ (members : List (String × Json)) (depth : Nat),
    PrintableMembers members depth →
    WritesMembers (Writes depth) (compactFurther members) (sortMembers members)
  | [], _, _ => .nil blanks_nil
  | (key, value) :: members, depth, h => by
      have hmore := WritesMembers.cons blanks_nil blanks_nil
        (writesMember_stringChars key blanks_nil (writes_compactChars value depth h.1))
        (writesMembers_compact members depth h.2)
      rwa [List.nil_append, List.nil_append, List.nil_append, ← compactMembers_cons] at hmore

end

/-- The compact form of a value is read as the value with its keys in order. -/
theorem parse_compact {value : Json} (h : value.Printable maxDepth) :
    parse value.compact = .ok value.sortKeys := by
  have hread := parse_of_writes blanks_nil (writes_compactChars value maxDepth h) blanks_nil
  rw [List.nil_append, List.append_nil] at hread
  rwa [parse, compact, String.toList_ofList]

/-! ### Pretty form -/

theorem blanks_newline (level : Nat) : Blanks isBlank (newline level) := by
  intro c hc
  rcases List.mem_cons.mp hc with rfl | hc
  · rfl
  · rw [List.eq_of_mem_replicate hc]
    rfl

theorem blanks_space : Blanks isBlank [' '] := by
  intro c hc
  rw [List.mem_singleton.mp hc]
  rfl

/-- The pretty form of what follows an element of an array. -/
def prettyElements (level : Nat) : List Json → List Char
  | [] => newline level ++ [']']
  | item :: items => ',' :: prettyItems level (item :: items)

/-- The pretty form of what follows a member of an object. -/
def prettyFurther (level : Nat) : List (String × Json) → List Char
  | [] => newline level ++ ['\x7d']
  | member :: members => ',' :: prettyMembers level (member :: members)

theorem prettyItems_cons (level : Nat) (item : Json) (items : List Json) :
    prettyItems level (item :: items)
      = newline (level + 1) ++ (item.prettyChars (level + 1) ++ prettyElements level items) := by
  cases items <;> simp only [prettyItems, prettyElements, List.append_assoc]

theorem prettyMembers_cons (level : Nat) (key : String) (value : Json)
    (members : List (String × Json)) :
    prettyMembers level ((key, value) :: members)
      = newline (level + 1) ++ '"' :: (key.toList.flatMap stringChar
          ++ '"' :: ':' :: ([' '] ++ value.prettyChars (level + 1))
          ++ prettyFurther level members) := by
  cases members <;>
    simp only [prettyMembers, prettyFurther, stringChars, List.append_assoc, List.cons_append,
      List.nil_append]

mutual

/-- The pretty form of a value, at any level, is a text for it with its keys in order. -/
theorem writes_prettyChars : ∀ (value : Json) (depth level : Nat), value.Printable depth →
    Writes depth (value.prettyChars level) value.sortKeys
  | .null, depth, _, _ => WritesScalar.null.writes depth
  | .bool true, depth, _, _ => WritesScalar.yes.writes depth
  | .bool false, depth, _, _ => WritesScalar.no.writes depth
  | .integer n, depth, _, h =>
      (WritesScalar.number (writesNumber_integerChars h.1 h.2)).writes depth
  | .float x, depth, _, h => (WritesScalar.number (n := .float x) h).writes depth
  | .string s, depth, _, _ => (writesScalar_stringChars s).writes depth
  | .array [], _ + 1, _, _ => .inr (.emptyArray blanks_nil)
  | .array (item :: items), depth + 1, level, h => by
      have harray := WritesNested.array (blanks_newline (level + 1))
        (writes_prettyChars item depth (level + 1) h.1)
        (writesElements_pretty items depth level h.2)
      rw [← prettyItems_cons] at harray
      exact .inr harray
  | .object [], _ + 1, _, _ => .inr (.emptyObject blanks_nil)
  | .object ((key, value) :: members), depth + 1, level, h => by
      have hobject := WritesNested.object (blanks_newline (level + 1))
        (writesMember_stringChars key blanks_space (writes_prettyChars value depth (level + 1) h.1))
        (writesMembers_pretty members depth level h.2)
      rw [← prettyMembers_cons] at hobject
      exact .inr hobject

/-- The pretty form of what follows an element is a text for the elements behind it. -/
theorem writesElements_pretty : ∀ (items : List Json) (depth level : Nat),
    PrintableItems items depth →
    WritesElements (Writes depth) (prettyElements level items) (sortItems items)
  | [], _, level, _ => .nil (blanks_newline level)
  | item :: items, depth, level, h => by
      have hmore := WritesElements.cons blanks_nil (blanks_newline (level + 1))
        (writes_prettyChars item depth (level + 1) h.1)
        (writesElements_pretty items depth level h.2)
      rwa [List.nil_append, ← prettyItems_cons] at hmore

/-- The pretty form of what follows a member is a text for the members behind it. -/
theorem writesMembers_pretty : ∀ (members : List (String × Json)) (depth level : Nat),
    PrintableMembers members depth →
    WritesMembers (Writes depth) (prettyFurther level members) (sortMembers members)
  | [], _, level, _ => .nil (blanks_newline level)
  | (key, value) :: members, depth, level, h => by
      have hmore := WritesMembers.cons blanks_nil (blanks_newline (level + 1))
        (writesMember_stringChars key blanks_space (writes_prettyChars value depth (level + 1) h.1))
        (writesMembers_pretty members depth level h.2)
      rwa [List.nil_append, ← prettyMembers_cons] at hmore

end

/-- The pretty form of a value is read as the value with its keys in order. -/
theorem parse_pretty {value : Json} (h : value.Printable maxDepth) :
    parse value.pretty = .ok value.sortKeys := by
  have hread := parse_of_writes blanks_nil (writes_prettyChars value maxDepth 0 h) blanks_nil
  rw [List.nil_append, List.append_nil] at hread
  rwa [parse, pretty, String.toList_ofList]

end NodeView.Json
