import NodeView.Proofs.Keyed
import NodeView.Toml.Document
/-!
# NodeView.Proofs.Toml.Ordered

Every table of a document lists its members in ascending order.

The invariant is `Part.Ordered`, over a table while it is read: its members are in ascending
order, and so are those of the tables below it. Whatever a statement changes, it changes at the
end of a path (`descend`), and there it inserts or replaces one part. What was read keeps the
order (`Part.Ordered.toToml`), and so a document does (`ordered_of_parse`).
-/

namespace NodeView

namespace Toml

/-- All tables of a value list their members in ascending order of keys, each key once. -/
inductive Ordered : Toml → Prop
  | string (s : String) : Ordered (.string s)
  | integer (n : Int) : Ordered (.integer n)
  | float (x : Extended) : Ordered (.float x)
  | bool (b : Bool) : Ordered (.bool b)
  | moment (s : String) : Ordered (.moment s)
  | array {items : List Toml} (h : ∀ item ∈ items, Ordered item) : Ordered (.array items)
  | table {members : List (String × Toml)} (hsorted : Keyed.Sorted members)
      (h : ∀ member ∈ members, Ordered member.2) : Ordered (.table members)

/-- All tables of a part list their members in ascending order of keys, each key once. -/
inductive Part.Ordered : Part → Prop
  | value {v : Toml} (h : v.Ordered) : Ordered (.value v)
  | table {standing : Standing} {members : Parts} (hsorted : Keyed.Sorted members)
      (h : ∀ member ∈ members, Ordered member.2) : Ordered (.table standing members)
  | tables {elements : List Part} (h : ∀ element ∈ elements, Ordered element) :
      Ordered (.tables elements)

/-- The parts of a table are in ascending order of keys, and all tables below them are. -/
structure Parts.Ordered (parts : Parts) : Prop where
  sorted : Keyed.Sorted parts
  below : ∀ member ∈ parts, member.2.Ordered

/-! ### Parts -/

namespace Parts

theorem ordered_nil : Ordered [] := ⟨Keyed.sorted_nil, fun _ h => nomatch h⟩

theorem ordered_of_table {standing : Standing} {members : Parts}
    (h : (Part.table standing members).Ordered) : Ordered members := by
  cases h with
  | table hsorted h => exact ⟨hsorted, h⟩

theorem Ordered.table {members : Parts} (h : members.Ordered) (standing : Standing) :
    (Part.table standing members).Ordered :=
  .table h.sorted h.below

theorem Ordered.insert {parts : Parts} {part : Part} (h : parts.Ordered) (key : String)
    (hpart : part.Ordered) : Ordered (Keyed.insert key part parts) := by
  refine ⟨h.sorted.insert key part, fun member hmem => ?_⟩
  rcases Keyed.mem_insert hmem with rfl | hmem
  · exact hpart
  · exact h.below member hmem

theorem Ordered.of_lookup? {parts : Parts} {part : Part} {key : String} (h : parts.Ordered)
    (hpart : Keyed.lookup? key parts = some part) : part.Ordered :=
  h.below _ ((Keyed.lookup?_eq_some_iff_mem h.sorted.nodup_keys).mp hpart)

/-- A change at the end of a path keeps the order if it does so where it is made. -/
theorem Ordered.descend {missing : Standing} {change : Standing → Parts → Option Parts}
    (hchange : ∀ {standing parts parts'}, Ordered parts → change standing parts = some parts' →
      Ordered parts') {path : List String} {standing : Standing} {parts parts' : Parts}
    (h : parts.Ordered) (hparts : Parts.descend missing change path standing parts = some parts') :
    parts'.Ordered := by
  induction path generalizing standing parts parts' with
  | nil => exact hchange h hparts
  | cons step path ih =>
      rw [Parts.descend] at hparts
      split at hparts
      · obtain ⟨inner, hinner, hresult⟩ := Option.bind_eq_some_iff.mp hparts
        cases hresult
        exact h.insert step ((ih ordered_nil hinner).table missing)
      · rename_i standing inner hfound
        have hbefore : Ordered inner := ordered_of_table (h.of_lookup? hfound)
        split at hparts
        · cases hparts
        · obtain ⟨inner', hinner, hresult⟩ := Option.bind_eq_some_iff.mp hparts
          cases hresult
          exact h.insert step ((ih hbefore hinner).table standing)
      · rename_i standing inner others hfound
        cases h.of_lookup? hfound with
        | tables helements =>
            have hbefore : Ordered inner := ordered_of_table (helements _ List.mem_cons_self)
            obtain ⟨inner', hinner, hresult⟩ := Option.bind_eq_some_iff.mp hparts
            cases hresult
            refine h.insert step (.tables fun element hmem => ?_)
            rcases List.mem_cons.mp hmem with rfl | hmem
            · exact (ih hbefore hinner).table standing
            · exact helements element (List.mem_cons_of_mem _ hmem)
      · cases hparts

theorem Ordered.assign {parts parts' : Parts} {key : Key} {value : Toml} (h : parts.Ordered)
    (hvalue : value.Ordered) (hparts : parts.assign key value = some parts') :
    parts'.Ordered := by
  refine h.descend (fun {standing parts parts'} h hchange => ?_) hparts
  split at hchange
  · cases hchange
  · split at hchange
    · cases hchange
    · cases hchange
      exact h.insert key.last (.value hvalue)

theorem Ordered.openTable {parts parts' : Parts} {key : Key} (h : parts.Ordered)
    (hparts : parts.openTable key = some parts') : parts'.Ordered := by
  refine h.descend (fun {standing parts parts'} h hchange => ?_) hparts
  split at hchange
  · cases hchange
    exact h.insert key.last (ordered_nil.table .header)
  · rename_i inner hfound
    cases hchange
    exact h.insert key.last ((ordered_of_table (h.of_lookup? hfound)).table .header)
  · cases hchange

theorem Ordered.openElement {parts parts' : Parts} {key : Key} (h : parts.Ordered)
    (hparts : parts.openElement key = some parts') : parts'.Ordered := by
  refine h.descend (fun {standing parts parts'} h hchange => ?_) hparts
  split at hchange
  · cases hchange
    refine h.insert key.last (.tables fun element hmem => ?_)
    rw [List.mem_singleton.mp hmem]
    exact ordered_nil.table .header
  · rename_i elements hfound
    cases hchange
    cases h.of_lookup? hfound with
    | tables helements =>
        refine h.insert key.last (.tables fun element hmem => ?_)
        rcases List.mem_cons.mp hmem with rfl | hmem
        · exact ordered_nil.table .header
        · exact helements element hmem
  · cases hchange

end Parts

/-! ### What was read -/

theorem membersOf_eq_map (parts : Parts) :
    membersOf parts = parts.map fun member => (member.1, member.2.toToml) := by
  induction parts with
  | nil => rfl
  | cons member parts ih => rw [membersOf, ih, List.map_cons]

theorem elementsOf_eq_map (parts : List Part) : elementsOf parts = parts.map Part.toToml := by
  induction parts with
  | nil => rfl
  | cons part parts ih => rw [elementsOf, ih, List.map_cons]

theorem Part.Ordered.toToml {part : Part} (h : part.Ordered) : part.toToml.Ordered := by
  induction h with
  | value h => exact h
  | table hsorted _ ih =>
      rw [Part.toToml, membersOf_eq_map]
      refine .table (List.pairwise_map.mpr hsorted) fun member hmem => ?_
      obtain ⟨part, hpart, rfl⟩ := List.mem_map.mp hmem
      exact ih part hpart
  | tables _ ih =>
      rw [Part.toToml, elementsOf_eq_map]
      refine .array fun item hmem => ?_
      obtain ⟨part, hpart, rfl⟩ := List.mem_map.mp (List.mem_reverse.mp hmem)
      exact ih part hpart

theorem Parts.Ordered.membersOf {parts : Parts} (h : parts.Ordered) :
    (Toml.table (Toml.membersOf parts)).Ordered :=
  (h.table .header).toToml

/-! ### Values -/

/-- What a reader of values reads is in order. -/
def ReadsOrdered (value : List Char → Option (Toml × List Char)) : Prop :=
  ∀ {text v rest}, value text = some (v, rest) → v.Ordered

theorem ReadsOrdered.or {first second : List Char → Option (Toml × List Char)}
    (hfirst : ReadsOrdered first) (hsecond : ReadsOrdered second) :
    ReadsOrdered fun text => (first text).or (second text) := by
  intro text v rest h
  rcases Option.or_eq_some_iff.mp h with h | ⟨_, h⟩
  · exact hfirst h
  · exact hsecond h

theorem readsOrdered_readMoment : ReadsOrdered readMoment := by
  intro text v rest h
  rw [readMoment] at h
  split at h
  · cases h
    exact .moment _
  · cases h

theorem readsOrdered_readReal : ReadsOrdered readReal := by
  intro text v rest h
  simp only [readReal, Option.bind_eq_bind, Option.bind_eq_some_iff] at h
  obtain ⟨whole, _, places, _, exponent, _, h⟩ := h
  split at h
  · cases h
  · split at h
    · cases h
    · cases h
      exact .float _

theorem readsOrdered_readSpecial : ReadsOrdered readSpecial := by
  intro text v rest h
  rw [readSpecial] at h
  split at h
  · cases h
    exact .float _
  · cases h
    exact .float _
  · cases h

theorem readsOrdered_readBased (base : Nat) : ReadsOrdered (readBased base) := by
  intro text v rest h
  simp only [readBased, Option.bind_eq_bind, Option.bind_eq_some_iff] at h
  obtain ⟨digits, _, h⟩ := h
  split at h
  · cases h
    exact .integer _
  · cases h

theorem readsOrdered_readDecimal : ReadsOrdered readDecimal := by
  intro text v rest h
  simp only [readDecimal, Option.bind_eq_bind, Option.bind_eq_some_iff] at h
  obtain ⟨digits, _, h⟩ := h
  -- Either sign has its own bound, and within it the number is a whole one.
  rcases hsign : Extended.splitSign text with ⟨negative, unsigned⟩
  rw [hsign] at h
  cases negative <;> simp only [Bool.false_eq_true, if_true, if_false] at h
  all_goals
    split at h
    · cases h
      exact .integer _
    · cases h

theorem readsOrdered_readInteger : ReadsOrdered readInteger := by
  intro text v rest h
  unfold readInteger at h
  split at h
  · exact readsOrdered_readBased 16 h
  · exact readsOrdered_readBased 8 h
  · exact readsOrdered_readBased 2 h
  · exact readsOrdered_readDecimal h

theorem readsOrdered_readNumber : ReadsOrdered readNumber :=
  readsOrdered_readMoment.or
    (readsOrdered_readReal.or (readsOrdered_readSpecial.or readsOrdered_readInteger))

theorem ordered_of_readItems {item : List Char → Option (Toml × List Char)}
    (hitem : ReadsOrdered item) {done items : List Toml} {bound text rest : List Char}
    (hdone : ∀ v ∈ done, v.Ordered) (h : readItems item done bound text = some (items, rest)) :
    ∀ v ∈ items, v.Ordered := by
  induction bound generalizing done text with
  | nil => cases h
  | cons _ bound ih =>
      rw [readItems] at h
      split at h
      · cases h
        exact fun v hv => hdone v (List.mem_reverse.mp hv)
      · split at h
        · cases h
        · rename_i value _ hvalue
          have hmore : ∀ v ∈ value :: done, v.Ordered :=
            List.forall_mem_cons.mpr ⟨hitem hvalue, hdone⟩
          split at h
          · cases h
            exact fun v hv => hmore v (List.mem_reverse.mp hv)
          · exact ih hmore h
          · cases h

theorem ordered_of_readAssignment {value : List Char → Option (Toml × List Char)}
    (hvalue : ReadsOrdered value) {text rest : List Char} {key : Key} {v : Toml}
    (h : readAssignment value text = some ((key, v), rest)) : v.Ordered := by
  simp only [readAssignment, Option.bind_eq_bind, Option.bind_eq_some_iff] at h
  obtain ⟨_, _, _, _, _, hv, h⟩ := h
  cases h
  exact hvalue hv

theorem ordered_of_readMembers {value : List Char → Option (Toml × List Char)}
    (hvalue : ReadsOrdered value) {parts parts' : Parts} {bound text rest : List Char}
    (hparts : parts.Ordered) (h : readMembers value parts bound text = some (parts', rest)) :
    parts'.Ordered := by
  induction bound generalizing parts text with
  | nil => cases h
  | cons _ bound ih =>
      rw [readMembers] at h
      split at h
      · cases h
      · rename_i key v _ hassignment
        have hv := ordered_of_readAssignment hvalue hassignment
        split at h
        · cases h
        · rename_i more hmore
          have hmore' := hparts.assign hv hmore
          split at h
          · cases h
            exact hmore'
          · exact ih hmore' h
          · cases h

theorem readsOrdered_readValueWith {array : List Char → Option (List Toml × List Char)}
    {braced : List Char → Option (Parts × List Char)}
    (harray : ∀ {text items rest}, array text = some (items, rest) → ∀ v ∈ items, v.Ordered)
    (hbraced : ∀ {text parts rest}, braced text = some (parts, rest) → Parts.Ordered parts) :
    ReadsOrdered (readValueWith array braced) := by
  intro text v rest h
  unfold readValueWith at h
  split at h
  · obtain ⟨_, _, h⟩ := Option.map_eq_some_iff.mp h
    cases h
    exact .string _
  · obtain ⟨_, _, h⟩ := Option.map_eq_some_iff.mp h
    cases h
    exact .string _
  · obtain ⟨_, hitems, h⟩ := Option.map_eq_some_iff.mp h
    cases h
    exact .array (harray hitems)
  · obtain ⟨_, hparts, h⟩ := Option.map_eq_some_iff.mp h
    cases h
    exact (hbraced hparts).membersOf
  · cases h
    exact .bool true
  · cases h
    exact .bool false
  · exact readsOrdered_readNumber h

theorem readsOrdered_readValue (depth : Nat) : ReadsOrdered (readValue depth) := by
  induction depth with
  | zero => exact readsOrdered_readValueWith (fun h => by cases h) (fun h => by cases h)
  | succ depth ih =>
      refine readsOrdered_readValueWith (fun h => ?_) (fun h => ?_)
      · exact ordered_of_readItems ih (fun _ hv => by cases hv) h
      · unfold readBraced at h
        split at h
        · cases h
          exact Parts.ordered_nil
        · exact ordered_of_readMembers ih Parts.ordered_nil h

/-! ### Documents -/

/-- A value that a statement puts somewhere is in order. -/
def Statement.Ordered : Statement → Prop
  | .assign _ value => value.Ordered
  | .table _ | .element _ => True

theorem ordered_of_readStatement {text rest : List Char} {statement : Statement}
    (h : readStatement text = some (statement, rest)) : statement.Ordered := by
  unfold readStatement at h
  split at h
  · simp only [Option.bind_eq_bind, Option.bind_eq_some_iff] at h
    obtain ⟨_, _, _, _, _, _, h⟩ := h
    cases h
    trivial
  · simp only [Option.bind_eq_bind, Option.bind_eq_some_iff] at h
    obtain ⟨_, _, _, _, h⟩ := h
    cases h
    trivial
  · obtain ⟨_, hassignment, h⟩ := Option.map_eq_some_iff.mp h
    cases h
    exact ordered_of_readAssignment (readsOrdered_readValue _) hassignment

theorem ordered_of_readStatementsFrom {done statements : List Statement}
    {bound text : List Char} (hdone : ∀ statement ∈ done, statement.Ordered)
    (h : readStatementsFrom done bound text = some statements) :
    ∀ statement ∈ statements, statement.Ordered := by
  induction bound generalizing done text with
  | nil =>
      cases h
      exact fun statement hs => hdone statement (List.mem_reverse.mp hs)
  | cons _ bound ih =>
      rw [readStatementsFrom] at h
      split at h
      · cases h
        exact fun statement hs => hdone statement (List.mem_reverse.mp hs)
      · split at h
        · cases h
        · rename_i statement _ hstatement
          split at h
          · cases h
          · exact ih (List.forall_mem_cons.mpr ⟨ordered_of_readStatement hstatement, hdone⟩) h

/-- A statement keeps the order of what was read so far. -/
theorem Draft.ordered_step {draft draft' : Draft} {statement : Statement}
    (h : draft.parts.Ordered) (hstatement : statement.Ordered)
    (hstep : draft.step statement = some draft') : draft'.parts.Ordered := by
  cases statement with
  | assign key value =>
      obtain ⟨parts, hparts, hresult⟩ := Option.bind_eq_some_iff.mp hstep
      cases hresult
      exact h.descend (fun h hchange => h.assign hstatement hchange) hparts
  | table key =>
      obtain ⟨parts, hparts, hresult⟩ := Option.bind_eq_some_iff.mp hstep
      cases hresult
      exact h.openTable hparts
  | element key =>
      obtain ⟨parts, hparts, hresult⟩ := Option.bind_eq_some_iff.mp hstep
      cases hresult
      exact h.openElement hparts

theorem Draft.ordered_foldlM {draft draft' : Draft} {statements : List Statement}
    (h : draft.parts.Ordered) (hstatements : ∀ statement ∈ statements, statement.Ordered)
    (hfold : statements.foldlM Draft.step draft = some draft') : draft'.parts.Ordered := by
  induction statements generalizing draft with
  | nil =>
      cases hfold
      exact h
  | cons statement statements ih =>
      rw [List.foldlM_cons] at hfold
      obtain ⟨next, hnext, hfold⟩ := Option.bind_eq_some_iff.mp hfold
      obtain ⟨hstatement, hstatements⟩ := List.forall_mem_cons.mp hstatements
      exact ih (Draft.ordered_step h hstatement hnext) hstatements hfold

/-- **A document is in order.** Every table of it lists its members in ascending order of keys,
each key once. -/
theorem ordered_of_parse {text : String} {members : List (String × Toml)}
    (h : parse text = some members) : (Toml.table members).Ordered := by
  obtain ⟨statements, hstatements, h⟩ := Option.bind_eq_some_iff.mp h
  obtain ⟨draft, hdraft, h⟩ := Option.bind_eq_some_iff.mp h
  cases h
  have hordered := ordered_of_readStatementsFrom (fun _ hs => by cases hs) hstatements
  exact (Draft.ordered_foldlM Parts.ordered_nil hordered hdraft).membersOf

/-- A table within a table that is in order is in order itself. -/
theorem sorted_of_lookup? {members inner : List (String × Toml)} {key : String}
    (h : (Toml.table members).Ordered) (hinner : Keyed.lookup? key members = some (.table inner)) :
    Keyed.Sorted inner := by
  cases h with
  | table hsorted hbelow =>
      have hmem := (Keyed.lookup?_eq_some_iff_mem hsorted.nodup_keys).mp hinner
      cases hbelow _ hmem with
      | table hsorted _ => exact hsorted

end Toml

end NodeView
