/-!
# NodeView.Keyed

Association lists in ascending order of their keys.

Where a form of data has keys and its order is not kept (the members of a JSON object, a table
of settings, the validators of a transaction), the entries are held sorted, each key once, so
that equal contents are equal lists. Keys are compared by code points, which for UTF-8 is the
same as comparing their bytes.

Main statements: `lookup?_insert` says what insertion does to look-up, `Sorted.insert` that it
keeps the order, and `Sorted.ext` that a sorted list is determined by its look-ups.
-/

namespace NodeView.Keyed

variable {α : Type}

/-- Puts a value under a key, in place of any value that is there. -/
def insert (key : String) (value : α) : List (String × α) → List (String × α)
  | [] => [(key, value)]
  | (k, v) :: rest =>
    if key < k then (key, value) :: (k, v) :: rest
    else if key = k then (key, value) :: rest
    else (k, v) :: insert key value rest

/-- The value under a key. -/
def lookup? (key : String) : List (String × α) → Option α
  | [] => none
  | (k, v) :: rest => if key = k then some v else lookup? key rest

/-- The sorted list of some entries; of those with one key the last one stands. -/
def ofList (entries : List (String × α)) : List (String × α) :=
  entries.foldl (fun sorted entry => insert entry.1 entry.2 sorted) []

/-- The keys are strictly ascending. -/
def Sorted (entries : List (String × α)) : Prop :=
  entries.Pairwise fun a b => a.1 < b.1

/-! ### Order of keys -/

theorem lt_of_not_lt_of_ne {a b : String} (h : ¬ a < b) (hne : a ≠ b) : b < a := by
  apply Decidable.byContradiction
  intro hba
  exact hne (String.le_antisymm (String.not_lt.mp hba) (String.not_lt.mp h))

theorem mem_insert {key : String} {value : α} {entries : List (String × α)} {e : String × α}
    (h : e ∈ insert key value entries) : e = (key, value) ∨ e ∈ entries := by
  induction entries with
  | nil => simpa [insert] using h
  | cons head rest ih =>
    obtain ⟨k, v⟩ := head
    rw [insert] at h
    split at h
    · simpa using h
    · split at h
      · rcases List.mem_cons.mp h with rfl | hmem
        · exact Or.inl rfl
        · exact Or.inr (List.mem_cons_of_mem _ hmem)
      · rcases List.mem_cons.mp h with rfl | hmem
        · exact Or.inr List.mem_cons_self
        · rcases ih hmem with rfl | hmem
          · exact Or.inl rfl
          · exact Or.inr (List.mem_cons_of_mem _ hmem)

@[simp] theorem sorted_nil : Sorted ([] : List (String × α)) := List.Pairwise.nil

/-- Insertion keeps the order. -/
theorem Sorted.insert {entries : List (String × α)} (h : Sorted entries) (key : String)
    (value : α) : Sorted (insert key value entries) := by
  induction entries with
  | nil => simp [Keyed.insert, Sorted]
  | cons head rest ih =>
    obtain ⟨k, v⟩ := head
    obtain ⟨hhead, hrest⟩ := List.pairwise_cons.mp h
    rw [Keyed.insert]
    split
    · rename_i hlt
      refine List.pairwise_cons.mpr ⟨?_, h⟩
      intro e he
      rcases List.mem_cons.mp he with rfl | hmem
      · exact hlt
      · exact String.lt_trans hlt (hhead e hmem)
    · split
      · rename_i heq
        subst heq
        exact List.pairwise_cons.mpr ⟨hhead, hrest⟩
      · rename_i hlt hne
        refine List.pairwise_cons.mpr ⟨?_, ih hrest⟩
        intro e he
        rcases mem_insert he with rfl | hmem
        · exact lt_of_not_lt_of_ne hlt hne
        · exact hhead e hmem

theorem sorted_foldl_insert {entries sorted : List (String × α)} (h : Sorted sorted) :
    Sorted (entries.foldl (fun sorted entry => insert entry.1 entry.2 sorted) sorted) := by
  induction entries generalizing sorted with
  | nil => exact h
  | cons entry rest ih => exact ih (h.insert entry.1 entry.2)

theorem sorted_ofList (entries : List (String × α)) : Sorted (ofList entries) :=
  sorted_foldl_insert sorted_nil

/-! ### Look-up -/

@[simp] theorem lookup?_nil (key : String) : lookup? key ([] : List (String × α)) = none := rfl

/-- After insertion the key has the new value and every other key the one it had. -/
theorem lookup?_insert (key other : String) (value : α) (entries : List (String × α)) :
    lookup? other (insert key value entries)
      = if other = key then some value else lookup? other entries := by
  induction entries with
  | nil => simp [insert, lookup?]
  | cons head rest ih =>
    obtain ⟨k, v⟩ := head
    rw [insert]
    split
    · simp [lookup?]
    · split
      · rename_i heq
        subst heq
        by_cases h : other = key <;> simp [lookup?, h]
      · rename_i hne
        by_cases h : other = k
        · subst h
          simp [lookup?, Ne.symm hne]
        · simp [lookup?, h, ih]

theorem lookup?_eq_none_of_lt {key : String} {entries : List (String × α)}
    (h : ∀ e ∈ entries, key < e.1) : lookup? key entries = none := by
  induction entries with
  | nil => rfl
  | cons head rest ih =>
    obtain ⟨k, v⟩ := head
    have hk : key < k := h (k, v) List.mem_cons_self
    have hne : key ≠ k := fun heq => String.lt_irrefl k (heq ▸ hk)
    rw [lookup?, if_neg hne]
    exact ih fun e he => h e (List.mem_cons_of_mem _ he)

/-- Sorted lists with the same look-ups are the same list. -/
theorem Sorted.ext {as bs : List (String × α)} (ha : Sorted as) (hb : Sorted bs)
    (h : ∀ key, lookup? key as = lookup? key bs) : as = bs := by
  induction as generalizing bs with
  | nil =>
    cases bs with
    | nil => rfl
    | cons b bs => simpa [lookup?] using h b.1
  | cons a as ih =>
    obtain ⟨ka, va⟩ := a
    obtain ⟨haHead, haRest⟩ := List.pairwise_cons.mp ha
    cases bs with
    | nil => simpa [lookup?] using h ka
    | cons b bs =>
      obtain ⟨kb, vb⟩ := b
      obtain ⟨hbHead, hbRest⟩ := List.pairwise_cons.mp hb
      have hkey : ka = kb := by
        apply Decidable.byContradiction
        intro hne
        by_cases hlt : ka < kb
        · have hnone : lookup? ka ((kb, vb) :: bs) = none := by
            refine lookup?_eq_none_of_lt fun e he => ?_
            rcases List.mem_cons.mp he with rfl | hmem
            · exact hlt
            · exact String.lt_trans hlt (hbHead e hmem)
          have := h ka
          rw [hnone, lookup?, if_pos rfl] at this
          cases this
        · have hgt : kb < ka := lt_of_not_lt_of_ne hlt hne
          have hnone : lookup? kb ((ka, va) :: as) = none := by
            refine lookup?_eq_none_of_lt fun e he => ?_
            rcases List.mem_cons.mp he with rfl | hmem
            · exact hgt
            · exact String.lt_trans hgt (haHead e hmem)
          have := h kb
          rw [hnone, lookup?, if_pos rfl] at this
          cases this
      subst hkey
      have hvalue : va = vb := by simpa [lookup?] using h ka
      subst hvalue
      congr 1
      refine ih haRest hbRest fun key => ?_
      by_cases hk : key = ka
      · subst hk
        rw [lookup?_eq_none_of_lt haHead, lookup?_eq_none_of_lt hbHead]
      · simpa [lookup?, hk] using h key

end NodeView.Keyed
