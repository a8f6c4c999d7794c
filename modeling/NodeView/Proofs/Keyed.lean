import NodeView.Keyed
/-!
# NodeView.Proofs.Keyed

Sorted association lists made from entries in any order.

Of several entries with one key the last one is found (`lookup?_ofList`), so lists in which the
same entries are last make the same sorted list (`ofList_eq_of_lookup?`): entries with distinct
keys may come in any order (`ofList_eq_of_perm`), and an entry may be left out if its key comes
again (`ofList_shadowed`). A list is sorted if its keys are some of those of a list in ascending
order (`sorted_of_sublist`).
-/

namespace NodeView.Keyed

variable {α β : Type}

/-! ### Look-up in a list made from entries -/

theorem lookup?_append (key : String) (as bs : List (String × α)) :
    lookup? key (as ++ bs) = (lookup? key as).or (lookup? key bs) := by
  induction as with
  | nil => simp
  | cons head rest ih =>
      obtain ⟨k, v⟩ := head
      by_cases h : key = k <;> simp [lookup?, h, ih]

theorem lookup?_foldl_insert (key : String) (entries start : List (String × α)) :
    lookup? key (entries.foldl (fun sorted entry => insert entry.1 entry.2 sorted) start)
      = (lookup? key entries.reverse).or (lookup? key start) := by
  induction entries generalizing start with
  | nil => simp
  | cons entry rest ih =>
      obtain ⟨k, v⟩ := entry
      rw [List.foldl_cons, ih, lookup?_insert, List.reverse_cons, lookup?_append, Option.or_assoc]
      by_cases h : key = k <;> simp [lookup?, h]

/-- Of several entries with one key the last one stands. -/
theorem lookup?_ofList (key : String) (entries : List (String × α)) :
    lookup? key (ofList entries) = lookup? key entries.reverse := by
  rw [ofList, lookup?_foldl_insert]
  simp

theorem lookup?_eq_some_iff_mem {entries : List (String × α)} (h : (entries.map (·.1)).Nodup)
    {key : String} {value : α} : lookup? key entries = some value ↔ (key, value) ∈ entries := by
  induction entries with
  | nil => simp
  | cons head rest ih =>
      obtain ⟨k, v⟩ := head
      obtain ⟨hhead, hrest⟩ := List.nodup_cons.mp h
      by_cases hkey : key = k
      · subst hkey
        have hnot : (key, value) ∉ rest := fun hmem => hhead (List.mem_map.mpr ⟨_, hmem, rfl⟩)
        simp [lookup?, hnot, eq_comm]
      · simp [lookup?, hkey, ih hrest]

/-- Where no two entries share a key, their order has no part in a look-up. -/
theorem lookup?_eq_of_perm {as bs : List (String × α)} (hperm : as.Perm bs)
    (h : (as.map (·.1)).Nodup) (key : String) : lookup? key as = lookup? key bs := by
  have hb : (bs.map (·.1)).Nodup := (hperm.map _).nodup_iff.mp h
  apply Option.ext
  intro value
  rw [lookup?_eq_some_iff_mem h, lookup?_eq_some_iff_mem hb]
  exact hperm.mem_iff

theorem sorted_of_sublist {entries : List (String × α)} {names : List String}
    (h : (entries.map (·.1)).Sublist names) (hnames : names.Pairwise (· < ·)) : Sorted entries :=
  List.pairwise_map.mp (hnames.sublist h)

theorem Sorted.nodup_keys {entries : List (String × α)} (h : Sorted entries) :
    (entries.map (·.1)).Nodup := by
  refine List.pairwise_map.mpr (h.imp ?_)
  intro a b hlt heq
  exact String.lt_irrefl b.1 (heq ▸ hlt)

theorem Sorted.lookup?_reverse {entries : List (String × α)} (h : Sorted entries) (key : String) :
    lookup? key entries.reverse = lookup? key entries :=
  (lookup?_eq_of_perm (List.reverse_perm entries).symm h.nodup_keys key).symm

/-- The entries of a sorted list make this list, in whatever order they are inserted. -/
theorem ofList_eq_of_perm {entries sorted : List (String × α)} (hperm : entries.Perm sorted)
    (h : Sorted sorted) : ofList entries = sorted := by
  refine Sorted.ext (sorted_ofList entries) h fun key => ?_
  -- Insertion favours the last entry of a key, look-up the first; here there is only one.
  have hback : entries.reverse.Perm sorted := (List.reverse_perm entries).trans hperm
  rw [lookup?_ofList]
  exact (lookup?_eq_of_perm hback.symm h.nodup_keys key).symm

/-! ### Lists made from entries that differ -/

/-- Only the last entry of each key is kept. -/
theorem ofList_eq_of_lookup? {as bs : List (String × α)}
    (h : ∀ key, lookup? key as.reverse = lookup? key bs.reverse) : ofList as = ofList bs := by
  refine Sorted.ext (sorted_ofList as) (sorted_ofList bs) fun key => ?_
  rw [lookup?_ofList, lookup?_ofList, h]

theorem lookup?_isSome {key : String} {entries : List (String × α)}
    (h : key ∈ entries.map (·.1)) : ∃ value, lookup? key entries = some value := by
  induction entries with
  | nil => cases h
  | cons head rest ih =>
      obtain ⟨k, v⟩ := head
      by_cases hkey : key = k
      · exact ⟨v, by rw [lookup?, if_pos hkey]⟩
      · obtain ⟨value, hvalue⟩ := ih ((List.mem_cons.mp h).resolve_left hkey)
        exact ⟨value, by rw [lookup?, if_neg hkey, hvalue]⟩

theorem ofList_swap {key key' : String} (h : key ≠ key') (front : List (String × α))
    (value value' : α) (back : List (String × α)) :
    ofList (front ++ (key, value) :: (key', value') :: back)
      = ofList (front ++ (key', value') :: (key, value) :: back) := by
  refine ofList_eq_of_lookup? fun other => ?_
  simp only [List.reverse_append, List.reverse_cons, lookup?_append]
  by_cases hkey : other = key
  · simp [lookup?, hkey, h]
  · simp [lookup?, hkey]

theorem ofList_shadowed {key : String} {back : List (String × α)} (h : key ∈ back.map (·.1))
    (front : List (String × α)) (value : α) :
    ofList (front ++ (key, value) :: back) = ofList (front ++ back) := by
  refine ofList_eq_of_lookup? fun other => ?_
  simp only [List.reverse_append, List.reverse_cons, lookup?_append]
  by_cases hkey : other = key
  · have hmem : key ∈ back.reverse.map (·.1) := by
      rwa [List.map_reverse, List.mem_reverse]
    obtain ⟨later, hlater⟩ := lookup?_isSome hmem
    simp [hkey, hlater]
  · simp [lookup?, hkey]

theorem lookup?_map (f : α → β) (key : String) (entries : List (String × α)) :
    lookup? key (entries.map fun entry => (entry.1, f entry.2)) = (lookup? key entries).map f := by
  induction entries with
  | nil => rfl
  | cons head rest ih =>
      obtain ⟨k, v⟩ := head
      by_cases hkey : key = k <;> simp [lookup?, hkey, ih]

theorem ofList_map (f : α → β) (entries : List (String × α)) :
    ofList (entries.map fun entry => (entry.1, f entry.2))
      = (ofList entries).map fun entry => (entry.1, f entry.2) := by
  have hsorted : Sorted ((ofList entries).map fun entry => (entry.1, f entry.2)) :=
    List.pairwise_map.mpr (sorted_ofList entries)
  refine Sorted.ext (sorted_ofList _) hsorted fun key => ?_
  rw [lookup?_ofList, ← List.map_reverse, lookup?_map, lookup?_map, lookup?_ofList]

/-- A list that is made from entries is made from itself. -/
theorem ofList_ofList (entries : List (String × α)) : ofList (ofList entries) = ofList entries :=
  ofList_eq_of_perm (.refl _) (sorted_ofList entries)

theorem mem_of_mem_foldl_insert {entries start : List (String × α)} {e : String × α}
    (h : e ∈ entries.foldl (fun sorted entry => insert entry.1 entry.2 sorted) start) :
    e ∈ entries ∨ e ∈ start := by
  induction entries generalizing start with
  | nil => exact .inr h
  | cons entry rest ih =>
      rcases ih h with hmem | hmem
      · exact .inl (List.mem_cons_of_mem _ hmem)
      · rcases mem_insert hmem with rfl | hmem
        · exact .inl List.mem_cons_self
        · exact .inr hmem

/-- A list made from entries holds some of them and nothing else. -/
theorem mem_of_mem_ofList {entries : List (String × α)} {e : String × α}
    (h : e ∈ ofList entries) : e ∈ entries :=
  (mem_of_mem_foldl_insert h).resolve_right List.not_mem_nil

end NodeView.Keyed
