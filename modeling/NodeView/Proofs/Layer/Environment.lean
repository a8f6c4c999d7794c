import Mathlib.Data.List.Induction
import Mathlib.Data.List.Infix
import NodeView.Layer.Environment
import NodeView.Proofs.Layer.Overlay
import NodeView.Proofs.Text.Quotation
/-!
# NodeView.Proofs.Layer.Environment

The layer of an environment.

An environment gives one table, whose members are what its variables give, each laid over those
before it (`layer_eq`). Under a key stands what the last variable that reaches it gives, laid over
what those before it leave (`lookup?_given_of_last`). A name in which nothing separates steps
names at most one key (`place?_eq`), and where no value is a table, the last value of each key
stands (`given_eq`).
-/

namespace NodeView

/-! ### Letters of either case -/

theorem toNat_toUpper (c : Char) :
    c.toUpper.toNat = if 97 ≤ c.toNat ∧ c.toNat ≤ 122 then c.toNat - 32 else c.toNat := by
  have hrange : ('a'.val ≤ c.val ∧ c.val ≤ 'z'.val) ↔ 97 ≤ c.toNat ∧ c.toNat ≤ 122 :=
    and_congr UInt32.le_iff_toNat_le UInt32.le_iff_toNat_le
  by_cases h : 97 ≤ c.toNat ∧ c.toNat ≤ 122
  · show (dite ('a'.val ≤ c.val ∧ c.val ≤ 'z'.val) _ _ : Char).toNat = _
    rw [if_pos h, dif_pos (hrange.mpr h)]
    show (c.val + ('A'.val - 'a'.val)).toNat = c.toNat - 32
    have hdistance : ('A'.val - 'a'.val).toNat = 4294967264 := by decide
    have hval : c.val.toNat = c.toNat := rfl
    rw [UInt32.toNat_add, hdistance, hval]
    omega
  · have hupper : c.toUpper = c := dif_neg (mt hrange.mp h)
    rw [if_neg h, hupper]

theorem toNat_toLower (c : Char) :
    c.toLower.toNat = if 65 ≤ c.toNat ∧ c.toNat ≤ 90 then c.toNat + 32 else c.toNat := by
  have hrange : (c.val ≥ 'A'.val ∧ c.val ≤ 'Z'.val) ↔ 65 ≤ c.toNat ∧ c.toNat ≤ 90 :=
    and_congr UInt32.le_iff_toNat_le UInt32.le_iff_toNat_le
  by_cases h : 65 ≤ c.toNat ∧ c.toNat ≤ 90
  · show (dite (c.val ≥ 'A'.val ∧ c.val ≤ 'Z'.val) _ _ : Char).toNat = _
    rw [if_pos h, dif_pos (hrange.mpr h)]
    show (c.val + ('a'.val - 'A'.val)).toNat = c.toNat + 32
    have hdistance : ('a'.val - 'A'.val).toNat = 32 := by decide
    have hval : c.val.toNat = c.toNat := rfl
    rw [UInt32.toNat_add, hdistance, hval]
    omega
  · have hlower : c.toLower = c := dif_neg (mt hrange.mp h)
    rw [if_neg h, hlower]

/-- Two characters that agree in upper case agree in lower case. -/
theorem toUpper_eq_iff (c d : Char) : c.toUpper = d.toUpper ↔ c.toLower = d.toLower := by
  rw [← Char.toNat_inj, ← Char.toNat_inj, toNat_toUpper, toNat_toUpper, toNat_toLower,
    toNat_toLower]
  split_ifs <;> omega

theorem map_toUpper_eq_iff (text other : List Char) :
    text.map Char.toUpper = other.map Char.toUpper
      ↔ text.map Char.toLower = other.map Char.toLower := by
  induction text generalizing other with
  | nil => cases other <;> simp
  | cons c text ih =>
      cases other with
      | nil => simp
      | cons d other => simp [toUpper_eq_iff, ih]

theorem toLower_eq_point_iff (c : Char) : c.toLower = '.' ↔ c = '.' := by
  have hpoint : ('.' : Char).toNat = 46 := rfl
  rw [← Char.toNat_inj, ← Char.toNat_inj, toNat_toLower, hpoint]
  split_ifs <;> omega

namespace Environment

/-! ### Names -/

/-- A variable counts if its name starts with the fixed word in letters of either case, after
any white space. -/
def Counts (name : String) : Prop :=
  leadingWord.map Char.toLower <+: (Text.trimChars name.toList).map Char.toLower

instance : DecidablePred Counts := fun _ => inferInstanceAs (Decidable (_ <+: _))

/-- Nothing in a name separates steps. -/
def IsSingle (name : String) : Prop :=
  '.' ∉ name.toList ∧ ¬ ['_', '_'] <:+: name.toList

instance : DecidablePred IsSingle := fun _ => inferInstanceAs (Decidable (_ ∧ _))

theorem afterWord?_eq_some_iff {text rest : List Char} :
    afterWord? text = some rest
      ↔ ∃ word, text = word ++ rest ∧ word.map Char.toLower = leadingWord.map Char.toLower := by
  have hupper : leadingWord.map Char.toUpper = leadingWord := by decide
  have hword (word : List Char) : word.map Char.toUpper = leadingWord
      ↔ word.map Char.toLower = leadingWord.map Char.toLower := by
    rw [← map_toUpper_eq_iff, hupper]
  rw [afterWord?]
  constructor
  · intro h
    split at h
    · rename_i hfront
      cases h
      exact ⟨text.take leadingWord.length, (List.take_append_drop _ _).symm, (hword _).mp hfront⟩
    · cases h
  · rintro ⟨word, rfl, hcase⟩
    have hlength : word.length = leadingWord.length := by
      simpa using congrArg List.length hcase
    rw [List.take_left' hlength, List.drop_left' hlength, if_pos ((hword word).mpr hcase)]

theorem counts_iff {name : String} :
    Counts name ↔ ∃ rest, afterWord? (Text.trimChars name.toList) = some rest := by
  constructor
  · rintro ⟨rest, h⟩
    obtain ⟨word, tail, hsplit, hcase, _⟩ := List.map_eq_append_iff.mp h.symm
    exact ⟨tail, afterWord?_eq_some_iff.mpr ⟨word, hsplit, hcase⟩⟩
  · rintro ⟨rest, h⟩
    obtain ⟨word, hsplit, hcase⟩ := afterWord?_eq_some_iff.mp h
    exact ⟨rest.map Char.toLower, by rw [hsplit, List.map_append, hcase]⟩

/-- The key that a name names in which nothing separates steps. -/
def key? (name : String) : Option String :=
  match afterWord? (Text.trimChars name.toList) with
  | none | some [] => none
  | some (c :: rest) => some (String.ofList ((c :: rest).map Char.toLower))

theorem replacePairs_eq {text : List Char} (h : ¬ ['_', '_'] <:+: text) :
    replacePairs text = text := by
  induction text with
  | nil => rfl
  | cons c rest ih =>
      have hrest : ¬ ['_', '_'] <:+: rest := fun hmem => h (List.infix_cons hmem)
      rw [replacePairs.eq_def]
      split
      · rename_i rest' heq
        exact absurd ⟨[], rest', by rw [heq]; rfl⟩ h
      · rename_i heq
        cases heq
        rw [ih hrest]
      · rename_i heq
        cases heq

theorem splitPoints_eq {text : List Char} (h : '.' ∉ text) : splitPoints text = [text] := by
  induction text with
  | nil => rfl
  | cons c rest ih =>
      have hc : '.' ≠ c := List.ne_of_not_mem_cons h
      have hrest : '.' ∉ rest := List.not_mem_of_not_mem_cons h
      rw [splitPoints.eq_def]
      split
      · rename_i heq
        cases heq
      · rename_i heq
        cases heq
        exact absurd rfl hc
      · rename_i heq
        cases heq
        rw [ih hrest]

theorem splitPoints_ne_nil (text : List Char) : splitPoints text ≠ [] := by
  rw [splitPoints.eq_def]
  split
  · exact List.cons_ne_nil _ _
  · exact List.cons_ne_nil _ _
  · split <;> exact List.cons_ne_nil _ _

theorem trimChars_isInfix (text : List Char) : Text.trimChars text <:+: text :=
  (Text.trimChars_isPrefix text).isInfix.trans (List.dropWhile_suffix _).isInfix

/-- A name in which nothing separates steps names the place right below the table, if it names
one. -/
theorem place?_eq {name : String} (h : Counts name → IsSingle name) :
    place? name = (key? name).map fun key => [tableKey, key] := by
  rw [place?, key?]
  cases hafter : afterWord? (Text.trimChars name.toList) with
  | none => rfl
  | some rest =>
      obtain ⟨hpoint, hpair⟩ := h (counts_iff.mpr ⟨rest, hafter⟩)
      obtain ⟨word, hsplit, _⟩ := afterWord?_eq_some_iff.mp hafter
      have hwithin : rest <:+: name.toList :=
        (hsplit ▸ List.suffix_append word rest).isInfix.trans (trimChars_isInfix _)
      have hpairs : replacePairs rest = rest :=
        replacePairs_eq fun hmem => hpair (hmem.trans hwithin)
      have hpoints : '.' ∉ rest.map Char.toLower := by
        intro hmem
        obtain ⟨c, hc, hlower⟩ := List.mem_map.mp hmem
        exact hpoint (hwithin.subset ((toLower_eq_point_iff c).mp hlower ▸ hc))
      cases rest with
      | nil => rfl
      | cons c rest =>
          simp only [hpairs, splitPoints_eq hpoints]
          simp

/-- What stands behind the fixed word, in lower case. -/
theorem exists_afterWord? {text : List Char} {key : String}
    (hlower : key.toList.map Char.toLower = key.toList)
    (h : text.map Char.toLower = (leadingWord ++ key.toList).map Char.toLower) :
    ∃ rest, afterWord? text = some rest ∧ rest.map Char.toLower = key.toList := by
  rw [List.map_append, hlower] at h
  obtain ⟨word, rest, hsplit, hcase, hrest⟩ := List.map_eq_append_iff.mp h
  exact ⟨rest, afterWord?_eq_some_iff.mpr ⟨word, hsplit, hcase⟩, hrest⟩

/-- A name names a key if it is the fixed word with the key behind it, in letters of either
case. -/
theorem key?_eq_some_iff {name key : String} (hkey : key ≠ "")
    (hlower : key.toList.map Char.toLower = key.toList) :
    key? name = some key
      ↔ (Text.trimChars name.toList).map Char.toLower
          = (leadingWord ++ key.toList).map Char.toLower := by
  have hne : key.toList ≠ [] := by simpa using hkey
  constructor
  · intro h
    rw [List.map_append, hlower]
    rw [key?] at h
    split at h
    · cases h
    · cases h
    · rename_i c rest hafter
      obtain ⟨word, hsplit, hcase⟩ := afterWord?_eq_some_iff.mp hafter
      cases h
      rw [hsplit, List.map_append, hcase, String.toList_ofList]
  · intro h
    obtain ⟨rest, hafter, hrest⟩ := exists_afterWord? hlower h
    rw [key?, hafter]
    cases rest with
    | nil => exact absurd hrest.symm hne
    | cons c rest => rw [← String.ofList_toList (s := key), ← hrest]

/-- The fixed word with a key behind it, in letters of either case, names the place of the key, if
nothing in the key separates steps. -/
theorem place?_of_key {name key : String} (hkey : key ≠ "")
    (hlower : key.toList.map Char.toLower = key.toList) (hpair : ¬ ['_', '_'] <:+: key.toList)
    (hpoint : '.' ∉ key.toList)
    (h : (Text.trimChars name.toList).map Char.toLower
      = (leadingWord ++ key.toList).map Char.toLower) :
    place? name = some [tableKey, key] := by
  obtain ⟨rest, hafter, hrest⟩ := exists_afterWord? hlower h
  have hpairs : replacePairs rest = rest := by
    refine replacePairs_eq fun hmem => hpair ?_
    rw [← hrest]
    exact hmem.map Char.toLower
  have hne : key.toList ≠ [] := by simpa using hkey
  rw [place?, hafter]
  simp [hpairs, hrest, splitPoints_eq hpoint, hne]

/-! ### What stands below the table -/

/-- A place is a key below the table, or further below. -/
theorem exists_of_place?_eq_some {name : String} {place : List String}
    (h : place? name = some place) : ∃ key steps, place = tableKey :: key :: steps := by
  rw [place?] at h
  split at h
  · cases h
  · rename_i rest _
    simp only [Option.ite_none_left_eq_some] at h
    obtain ⟨step, steps, hsteps⟩ := List.exists_cons_of_ne_nil
      (splitPoints_ne_nil ((replacePairs rest).map Char.toLower))
    rw [hsteps] at h
    exact ⟨_, _, (Option.some.inj h.2).symm⟩

/-- The key below the table that a variable reaches, with what it gives there. -/
def reached? : String × String → Option (String × Entry)
  | (name, text) =>
    match place? name with
    | some [_, key] => some (key, EnvironmentValue.entryOf text)
    | some (_ :: key :: step :: steps) =>
      some (key, .table .environment
        (Entry.nest .environment (EnvironmentValue.entryOf text) (step :: steps)))
    | _ => none

theorem exists_place_of_reached? {named : String × String} {key : String} {entry : Entry}
    (h : reached? named = some (key, entry)) :
    ∃ steps, place? named.1 = some (tableKey :: key :: steps) := by
  obtain ⟨name, text⟩ := named
  cases hplace : place? name with
  | none => simp [reached?, hplace] at h
  | some place =>
      obtain ⟨other, steps, rfl⟩ := exists_of_place?_eq_some hplace
      have hkey : other = key := by
        cases steps <;> simp [reached?, hplace] at h <;> exact h.1
      exact ⟨steps, by rw [hkey]⟩

theorem reached?_eq_none_iff {named : String × String} :
    reached? named = none ↔ place? named.1 = none := by
  obtain ⟨name, text⟩ := named
  cases hplace : place? name with
  | none => simp [reached?, hplace]
  | some place =>
      obtain ⟨key, steps, rfl⟩ := exists_of_place?_eq_some hplace
      cases steps <;> simp [reached?, hplace]

/-- What variables give below the table, each laid over those before it. -/
def given (environment : List (String × String)) : Layer :=
  (environment.filterMap reached?).foldl (fun members member => Layer.overlay [member] members) []

@[simp] theorem given_nil : given [] = [] := rfl

theorem given_append (environment : List (String × String)) (named : String × String) :
    given (environment ++ [named])
      = Layer.overlay (reached? named).toList (given environment) := by
  rw [given, List.filterMap_append, List.foldl_append, ← given]
  cases hreached : reached? named with
  | none => simp [hreached, Layer.overlay, Entry.overlayLayer]
  | some member => simp [hreached]

theorem sorted_given (environment : List (String × String)) :
    Keyed.Sorted (given environment) := by
  induction environment using List.reverseRecOn with
  | nil => exact Keyed.sorted_nil
  | append_singleton environment named ih =>
      rw [given_append]
      exact Entry.sorted_overlayLayer _ ih

/-- A variable is laid over what those before it leave under the key that it reaches. -/
theorem lookup?_given_append (environment : List (String × String)) (named : String × String)
    (key : String) :
    Keyed.lookup? key (given (environment ++ [named]))
      = Option.merge Entry.overlay (Keyed.lookup? key (reached? named).toList)
          (Keyed.lookup? key (given environment)) := by
  have hsorted : Keyed.Sorted (reached? named).toList := by
    cases reached? named with
    | none => exact Keyed.sorted_nil
    | some member => exact List.pairwise_singleton _ _
  rw [given_append, Layer.overlay, Entry.lookup?_overlayLayer hsorted]

/-- What stands under a key is not touched by variables that do not reach it. -/
theorem lookup?_given_append_of_not_reached {key : String} (front : List (String × String))
    {back : List (String × String)}
    (h : ∀ named ∈ back, ∀ entry, reached? named ≠ some (key, entry)) :
    Keyed.lookup? key (given (front ++ back)) = Keyed.lookup? key (given front) := by
  induction back using List.reverseRecOn with
  | nil => rw [List.append_nil]
  | append_singleton back named ih =>
      have hnamed : Keyed.lookup? key (reached? named).toList = none := by
        have hnot := h named (by simp)
        cases hreached : reached? named with
        | none => rfl
        | some member =>
            obtain ⟨other, entry⟩ := member
            have hne : key ≠ other := fun heq => hnot entry (by rw [hreached, heq])
            simp [Keyed.lookup?, hne]
      rw [← List.append_assoc, lookup?_given_append, hnamed,
        ih fun named hmem => h named (by simp [hmem])]
      cases Keyed.lookup? key (given front) <;> rfl

/-- What stands under a key is that of the last variable which reaches it, laid over what those
before it leave. -/
theorem lookup?_given_of_last {key : String} {entry : Entry} (front : List (String × String))
    {named : String × String} {back : List (String × String)}
    (hnamed : reached? named = some (key, entry))
    (hback : ∀ named ∈ back, ∀ entry, reached? named ≠ some (key, entry)) :
    Keyed.lookup? key (given (front ++ named :: back))
      = Option.merge Entry.overlay (some entry) (Keyed.lookup? key (given front)) := by
  have hlast := lookup?_given_append_of_not_reached (front ++ [named]) hback
  rw [List.append_assoc, List.singleton_append] at hlast
  rw [hlast, lookup?_given_append, hnamed]
  simp [Keyed.lookup?]

theorem given_eq_nil_iff {environment : List (String × String)} :
    given environment = [] ↔ ∀ named ∈ environment, place? named.1 = none := by
  induction environment using List.reverseRecOn with
  | nil => simp
  | append_singleton environment named ih =>
      rw [given_append, List.forall_mem_append, List.forall_mem_singleton, ← ih,
        ← reached?_eq_none_iff]
      cases hreached : reached? named with
      | none => simp [Layer.overlay, Entry.overlayLayer]
      | some member =>
          obtain ⟨key, entry⟩ := member
          have hfound := lookup?_given_append environment named key
          rw [given_append, hreached] at hfound
          constructor
          · intro h
            rw [h] at hfound
            cases hbefore : Keyed.lookup? key (given environment) <;>
              simp [Keyed.lookup?, hbefore] at hfound
          · rintro ⟨_, h⟩
            cases h

/-! ### The layer -/

/-- The layer with one table, or without one if nothing is in it. -/
def layerOf : List (String × Entry) → Layer
  | [] => []
  | member :: members => [(tableKey, .table .environment (member :: members))]

theorem layerOf_insert (key : String) (entry : Entry) (members : List (String × Entry)) :
    layerOf (Keyed.insert key entry members)
      = [(tableKey, .table .environment (Keyed.insert key entry members))] := by
  cases hmembers : Keyed.insert key entry members with
  | nil =>
      have hfound := Keyed.lookup?_insert key key entry members
      rw [hmembers, if_pos rfl] at hfound
      cases hfound
  | cons member members => rfl

theorem overlay_layerOf (member : String × Entry) (members : List (String × Entry)) :
    Layer.overlay [(tableKey, .table .environment [member])] (layerOf members)
      = layerOf (Layer.overlay [member] members) := by
  obtain ⟨key, entry⟩ := member
  rw [Layer.overlay, Layer.overlay, Entry.overlayLayer_singleton key, layerOf_insert,
    Entry.overlayLayer_singleton]
  cases members with
  | nil => rfl
  | cons member members =>
      simp [layerOf, Keyed.lookup?, Entry.overlay, Entry.overlayLayer_singleton, Keyed.insert]

/-- The layer of an environment is one table, or nothing if no variable names a place. -/
theorem layer_eq (environment : List (String × String)) :
    layer environment = layerOf (given environment) := by
  induction environment using List.reverseRecOn with
  | nil => rfl
  | append_singleton environment named ih =>
      obtain ⟨name, text⟩ := named
      rw [layer, List.foldl_append, ← layer, ih, given_append]
      cases hplace : place? name with
      | none => simp [reached?, hplace, Layer.overlay, Entry.overlayLayer]
      | some place =>
          obtain ⟨key, steps, rfl⟩ := exists_of_place?_eq_some hplace
          cases steps <;> simp [reached?, hplace, Entry.nest, overlay_layerOf]

/-! ### Variables that name one key each -/

/-- The variables that count name one key each, and no value is a table. -/
structure Plain (environment : List (String × String)) : Prop where
  names : ∀ name text, (name, text) ∈ environment → Counts name → IsSingle name
  values : ∀ name text, (name, text) ∈ environment → Counts name →
    (EnvironmentValue.entryOf text).IsPlain

theorem plain_iff {environment : List (String × String)} :
    Plain environment ↔ ∀ named ∈ environment, Counts named.1 →
      IsSingle named.1 ∧ (EnvironmentValue.entryOf named.2).IsPlain :=
  ⟨fun h _ hmem hcounts => ⟨h.names _ _ hmem hcounts, h.values _ _ hmem hcounts⟩,
    fun h => ⟨fun _ _ hmem hcounts => (h _ hmem hcounts).1,
      fun _ _ hmem hcounts => (h _ hmem hcounts).2⟩⟩

instance : DecidablePred Plain := fun _ => decidable_of_iff _ plain_iff.symm

theorem Plain.of_sublist {environment more : List (String × String)} (h : Plain more)
    (hsub : environment.Sublist more) : Plain environment :=
  ⟨fun name text hmem => h.names name text (hsub.mem hmem),
    fun name text hmem => h.values name text (hsub.mem hmem)⟩

/-- The key that a variable names, with its value. -/
def member? : String × String → Option (String × Entry)
  | (name, text) => (key? name).map fun key => (key, EnvironmentValue.entryOf text)

/-- The keys that variables name, with their values. -/
def entries (environment : List (String × String)) : List (String × Entry) :=
  environment.filterMap member?

theorem counts_of_key? {name key : String} (h : key? name = some key) : Counts name := by
  rw [key?] at h
  split at h
  · cases h
  · cases h
  · rename_i hafter
    exact counts_iff.mpr ⟨_, hafter⟩

theorem Plain.isPlain_of_mem_entries {environment : List (String × String)}
    (h : Plain environment) {member : String × Entry} (hmem : member ∈ entries environment) :
    member.2.IsPlain := by
  obtain ⟨⟨name, text⟩, hvariable, hmember⟩ := List.mem_filterMap.mp hmem
  obtain ⟨key, hkey, rfl⟩ := Option.map_eq_some_iff.mp hmember
  exact h.values name text hvariable (counts_of_key? hkey)

theorem Plain.isPlain_of_mem_ofList {environment : List (String × String)}
    (h : Plain environment) :
    ∀ member ∈ Keyed.ofList (entries environment), member.2.IsPlain :=
  fun _ hmem => h.isPlain_of_mem_entries (Keyed.mem_of_mem_ofList hmem)

/-- Where no two values are laid into each other, the last value of each key stands. -/
theorem given_eq {environment : List (String × String)} (h : Plain environment) :
    given environment = Keyed.ofList (entries environment) := by
  -- From the end, since every variable is laid over those before it.
  induction environment using List.reverseRecOn with
  | nil => rfl
  | append_singleton environment last ih =>
      obtain ⟨name, text⟩ := last
      have hmem : (name, text) ∈ environment ++ [(name, text)] := by simp
      have hfront := ih (h.of_sublist (List.sublist_append_left _ _))
      have hplace := place?_eq (h.names name text hmem)
      have hentries : entries (environment ++ [(name, text)])
          = entries environment ++ (member? (name, text)).toList := by
        rw [entries, List.filterMap_append, entries]
        cases hmember : member? (name, text) <;> simp [hmember]
      rw [given_append, hfront, hentries]
      cases hkey : key? name with
      | none =>
          rw [hkey] at hplace
          simp [reached?, member?, hplace, hkey, Layer.overlay, Entry.overlayLayer]
      | some key =>
          rw [hkey] at hplace
          have hvalue := h.values name text hmem (counts_of_key? hkey)
          simp [reached?, member?, hplace, hkey, Layer.overlay, Keyed.ofList,
            Entry.overlayLayer_singleton_of_isPlain hvalue]

/-- The value of a key is that of the last variable which names it. -/
theorem lookup?_entries (environment : List (String × String)) (key : String) :
    Keyed.lookup? key (Keyed.ofList (entries environment))
      = (environment.reverse.find? fun (name, _) => key? name = some key).map fun (_, text) =>
          EnvironmentValue.entryOf text := by
  rw [Keyed.lookup?_ofList, entries, ← List.filterMap_reverse]
  induction environment.reverse with
  | nil => rfl
  | cons first others ih =>
      obtain ⟨name, text⟩ := first
      rw [List.find?_cons]
      cases hkey : key? name with
      | none => simpa [member?, hkey] using ih
      | some other =>
          by_cases h : other = key
          · subst h
            simp [member?, hkey, Keyed.lookup?]
          · simp [member?, hkey, Keyed.lookup?, h, Ne.symm h, ih]

end Environment

end NodeView
