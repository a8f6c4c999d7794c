import NodeView.Proofs.Json.Listing
import NodeView.Proofs.Json.Order
/-!
# NodeView.Proofs.Json.Variant

Documents that differ only in what reading does not keep.

Members with different keys may change places, and a member behind which its key is given again
may be left out, whatever it holds; this goes for every object of a document (`Variant`). None of
it makes a difference to the last members of each key, which are all that is left when the keys
are brought into order (`Variant.sortKeys_eq`). A text is read as its document in order, so
texts that spell out variants are read as the same value (`parse_eq_of_variant`).
-/

namespace NodeView.Json

/-! ### Variants -/

/-- Documents that differ only in the order of members with different keys and in members that
are shadowed by a later one with the same key. -/
inductive Variant : Json → Json → Prop where
  | refl (document : Json) : Variant document document
  | symm {document document' : Json} (h : Variant document document') : Variant document' document
  | trans {document document' document'' : Json} (h : Variant document document')
      (h' : Variant document' document'') : Variant document document''
  | element {front back : List Json} {item item' : Json} (h : Variant item item') :
      Variant (.array (front ++ item :: back)) (.array (front ++ item' :: back))
  | member {front back : List (String × Json)} {key : String} {value value' : Json}
      (h : Variant value value') :
      Variant (.object (front ++ (key, value) :: back)) (.object (front ++ (key, value') :: back))
  | order {front back : List (String × Json)} {key key' : String} {value value' : Json}
      (h : key ≠ key') :
      Variant (.object (front ++ (key, value) :: (key', value') :: back))
        (.object (front ++ (key', value') :: (key, value) :: back))
  | shadowed {front back : List (String × Json)} {key : String} {value : Json}
      (h : key ∈ back.map (·.1)) :
      Variant (.object (front ++ (key, value) :: back)) (.object (front ++ back))

/-- **Variants have the same contents**, once their keys are in order. -/
theorem Variant.sortKeys_eq {document document' : Json} (h : Variant document document') :
    document.sortKeys = document'.sortKeys := by
  induction h with
  | refl => rfl
  | symm _ ih => exact ih.symm
  | trans _ _ ih ih' => exact ih.trans ih'
  | element _ ih => simp only [sortKeys, sortItems_eq_map, List.map_append, List.map_cons, ih]
  | member _ ih => simp only [sortKeys, sortMembers_eq_map, List.map_append, List.map_cons, ih]
  | order hkeys =>
      simp only [sortKeys, sortMembers_eq_map, List.map_append, List.map_cons]
      rw [Keyed.ofList_swap hkeys]
  | shadowed hmem =>
      simp only [sortKeys, sortMembers_eq_map, List.map_append, List.map_cons]
      rw [Keyed.ofList_shadowed]
      simpa using hmem

/-- Texts that spell out variants are read as the same value. -/
theorem parse_eq_of_variant {text text' : String} {document document' : Json}
    (h : SpellsOut text document) (h' : SpellsOut text' document')
    (hvariant : Variant document document') : parse text = parse text' := by
  rw [h.parse_eq, h'.parse_eq, hvariant.sortKeys_eq]

end NodeView.Json
