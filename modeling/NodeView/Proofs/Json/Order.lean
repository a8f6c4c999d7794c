import NodeView.Json.Value
import NodeView.Proofs.Keyed
/-!
# NodeView.Proofs.Json.Order

Values with their keys in order.

Bringing the keys into order goes through a value object by object, and a list of members that
is made from others holds some of them. So every object is in order afterwards
(`sorted_sortKeys`), and there is nothing left to do a second time (`sortKeys_sortKeys`).
-/

namespace NodeView.Json

theorem sortItems_eq_map (items : List Json) : sortItems items = items.map sortKeys := by
  induction items with
  | nil => rfl
  | cons item items ih => rw [sortItems, ih, List.map_cons]

theorem sortMembers_eq_map (members : List (String × Json)) :
    sortMembers members = members.map fun member => (member.1, member.2.sortKeys) := by
  induction members with
  | nil => rfl
  | cons member members ih => rw [sortMembers, ih, List.map_cons]

theorem sortedMembers_iff {members : List (String × Json)} :
    SortedMembers members ↔ ∀ member ∈ members, member.2.Sorted := by
  induction members with
  | nil => simp [SortedMembers]
  | cons member members ih => simp [SortedMembers, ih]

theorem sortMembers_ofList (members : List (String × Json)) :
    sortMembers (Keyed.ofList members) = Keyed.ofList (sortMembers members) := by
  rw [sortMembers_eq_map, sortMembers_eq_map, Keyed.ofList_map]

mutual

theorem sorted_sortKeys : ∀ value : Json, value.sortKeys.Sorted
  | .null | .bool _ | .integer _ | .float _ | .string _ => trivial
  | .array items => sortedItems_sortItems items
  | .object members => by
      refine ⟨Keyed.sorted_ofList _, sortedMembers_iff.mpr fun member hmember => ?_⟩
      exact sortedMembers_iff.mp (sortedMembers_sortMembers members) member
        (Keyed.mem_of_mem_ofList hmember)

theorem sortedItems_sortItems : ∀ items : List Json, SortedItems (sortItems items)
  | [] => trivial
  | item :: items => ⟨sorted_sortKeys item, sortedItems_sortItems items⟩

theorem sortedMembers_sortMembers :
    ∀ members : List (String × Json), SortedMembers (sortMembers members)
  | [] => trivial
  | (_, value) :: members => ⟨sorted_sortKeys value, sortedMembers_sortMembers members⟩

end

mutual

/-- Keys that are in order stay as they are. -/
theorem sortKeys_sortKeys : ∀ value : Json, value.sortKeys.sortKeys = value.sortKeys
  | .null | .bool _ | .integer _ | .float _ | .string _ => rfl
  | .array items => by
      simp only [sortKeys, sortItems_sortItems items]
  | .object members => by
      simp only [sortKeys, sortMembers_ofList, sortMembers_sortMembers members,
        Keyed.ofList_ofList]

theorem sortItems_sortItems :
    ∀ items : List Json, sortItems (sortItems items) = sortItems items
  | [] => rfl
  | item :: items => by
      simp only [sortItems, sortKeys_sortKeys item, sortItems_sortItems items]

theorem sortMembers_sortMembers :
    ∀ members : List (String × Json), sortMembers (sortMembers members) = sortMembers members
  | [] => rfl
  | (key, value) :: members => by
      simp only [sortMembers, sortKeys_sortKeys value, sortMembers_sortMembers members]

end

end NodeView.Json
