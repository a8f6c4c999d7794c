import NodeView.Proofs.Keyed
import NodeView.Settings.OfLayer
/-!
# NodeView.Proofs.Settings.OfLayer

What a table gives to each setting.

`Entry.Gives` says which entries are valid for a setting and what they set it to, and
`Settings.Takes` adds that a setting without an entry is left as it was. A table in ascending
order is read key by key: it gives settings if each of them takes what stands under its key, or
has its default (`ofTable_eq_ok_iff`), and the keys that name no setting have no part in it
(`ofTable_congr`).
-/

namespace NodeView

/-! ### Entries -/

namespace Entry

/-- The text that an entry is, where any text may stand. -/
def text? : Entry → Option String
  | .scalar _ (.text s) => some s
  | .scalar _ (.letter c) => some (String.singleton c)
  | _ => none

/-- The name that an entry is; one letter is none. -/
def name? : Entry → Option String
  | .scalar _ (.text s) => some s
  | _ => none

/-- The whole number that an entry is. -/
def integer? : Entry → Option Int
  | .scalar _ (.signed n) => some n
  | .scalar _ (.unsigned n) => some n
  | _ => none

/-- An entry is valid for the setting of an assignment, and sets it to the assigned value. -/
inductive Gives (entry : Entry) : Assignment → Prop
  | listenAddress {s : String} {address : SocketAddress} (hs : entry.text? = some s)
      (haddress : SocketAddress.ofText? s = some address) : Gives entry (.listenAddress address)
  | nodeId {s : String} (hs : entry.text? = some s) : Gives entry (.nodeId s)
  | role {role : NodeRole} (hname : entry.name? = some role.name) : Gives entry (.role role)
  | network {network : Network} (hname : entry.name? = some network.name) :
      Gives entry (.network network)
  | maxConcurrentStreams {n : UInt32} (hn : entry.integer? = some (n.toNat : Int)) :
      Gives entry (.maxConcurrentStreams n)
  | requestTimeout {n : UInt64} (hn : entry.integer? = some (n.toNat : Int)) :
      Gives entry (.requestTimeout n)
  | maxMessageSize {n : UInt64} (hn : entry.integer? = some (n.toNat : Int)) :
      Gives entry (.maxMessageSize n)
  | logLevel {s : String} (hs : entry.text? = some s) : Gives entry (.logLevel s)

end Entry

/-- The setting that an assignment assigns to. -/
def Assignment.setting : Assignment → Setting
  | .listenAddress _ => .listenAddress
  | .nodeId _ => .nodeId
  | .role _ => .role
  | .network _ => .network
  | .maxConcurrentStreams _ => .maxConcurrentStreams
  | .requestTimeout _ => .requestTimeout
  | .maxMessageSize _ => .maxMessageSize
  | .logLevel _ => .logLevel

namespace Settings

theorem mapError_eq_ok {ε ε' α : Type} {f : ε → ε'} {x : Except ε α} {a : α} :
    x.mapError f = .ok a ↔ x = .ok a := by
  cases x with
  | error e => constructor <;> intro h <;> cases h
  | ok b => constructor <;> intro h <;> cases h <;> rfl

section

variable {setting : Setting} {place : List String} {entry : Entry} {assignment : Assignment}

/-- A setting that takes any text, or the text of an address, is given a text. -/
theorem assignmentOfEntry_of_text (h : setting.domain = .text ∨ setting.domain = .address) :
    assignmentOfEntry setting place entry = .ok assignment
      ↔ ∃ s, entry.text? = some s ∧ setting.ofString s = .ok assignment := by
  cases entry with
  | scalar origin value =>
      rcases h with h | h <;> cases value <;>
        simp [assignmentOfEntry, h, mapError_eq_ok, Entry.text?]
  | list origin items =>
      rcases h with h | h <;> simp [assignmentOfEntry, h, mapError_eq_ok, Entry.text?]
  | table origin members =>
      rcases h with h | h <;> simp [assignmentOfEntry, h, mapError_eq_ok, Entry.text?]

/-- A setting that is a choice among names is given a name, and nothing by any table. -/
theorem assignmentOfEntry_of_name {title : String} {names : List String}
    (h : setting.domain = .name title names) :
    assignmentOfEntry setting place entry = .ok assignment
      ↔ ∃ s, entry.name? = some s ∧ setting.ofString s = .ok assignment := by
  cases entry with
  | scalar origin value =>
      cases value <;> simp [assignmentOfEntry, h, mapError_eq_ok, Entry.name?]
  | list origin items => simp [assignmentOfEntry, h, mapError_eq_ok, Entry.name?]
  | table origin members =>
      cases members with
      | nil => simp [assignmentOfEntry, h, choiceOfTable, Entry.name?]
      | cons member members =>
          obtain ⟨name, value⟩ := member
          cases hname : setting.ofString name <;>
            simp [assignmentOfEntry, h, choiceOfTable, hname, Entry.name?]

/-- A setting that is a whole number is given one. -/
theorem assignmentOfEntry_of_number {type : String} {max : Nat}
    (h : setting.domain = .number type max) :
    assignmentOfEntry setting place entry = .ok assignment
      ↔ ∃ n, entry.integer? = some n ∧ setting.ofInteger n = .ok assignment := by
  cases entry with
  | scalar origin value =>
      cases value <;> simp [assignmentOfEntry, h, mapError_eq_ok, Entry.integer?]
  | list origin items => simp [assignmentOfEntry, h, mapError_eq_ok, Entry.integer?]
  | table origin members => simp [assignmentOfEntry, h, mapError_eq_ok, Entry.integer?]

end

/-! ### One setting -/

theorem ofName?_eq_some_iff {s : String} {role : NodeRole} :
    NodeRole.ofName? s = some role ↔ s = role.name := by
  constructor
  · intro h
    have hname : role.name = s := by simpa using List.find?_some h
    exact hname.symm
  · rintro rfl
    exact NodeRole.ofName?_name role

theorem network_ofName?_eq_some_iff {s : String} {network : Network} :
    Network.ofName? s = some network ↔ s = network.name := by
  constructor
  · intro h
    have hname : network.name = s := by simpa using List.find?_some h
    exact hname.symm
  · rintro rfl
    exact Network.ofName?_name network

theorem ofString_address_eq_ok_iff {s : String} {assignment : Assignment} :
    Setting.listenAddress.ofString s = .ok assignment
      ↔ ∃ address, SocketAddress.ofText? s = some address ∧
          .listenAddress address = assignment := by
  simp only [Setting.ofString]
  cases SocketAddress.ofText? s <;> simp

theorem ofString_role_eq_ok_iff {s : String} {assignment : Assignment} :
    Setting.role.ofString s = .ok assignment
      ↔ ∃ role : NodeRole, s = role.name ∧ .role role = assignment := by
  simp only [Setting.ofString, ← ofName?_eq_some_iff]
  cases NodeRole.ofName? s <;> simp

theorem ofString_network_eq_ok_iff {s : String} {assignment : Assignment} :
    Setting.network.ofString s = .ok assignment
      ↔ ∃ network : Network, s = network.name ∧ .network network = assignment := by
  simp only [Setting.ofString, ← network_ofName?_eq_some_iff]
  cases Network.ofName? s <;> simp

theorem ofRange32_eq_ok_iff {n : Int} {assign : UInt32 → Assignment} {assignment : Assignment} :
    (if 0 ≤ n ∧ n < 2 ^ 32 then .ok (assign (UInt32.ofNat n.toNat))
      else .error .range : Except Mismatch Assignment) = .ok assignment
      ↔ ∃ m : UInt32, n = m.toNat ∧ assign m = assignment := by
  constructor
  · intro h
    split at h
    · rename_i hrange
      cases h
      have hsize : n.toNat < UInt32.size := by
        rw [UInt32.size]
        omega
      refine ⟨UInt32.ofNat n.toNat, ?_, rfl⟩
      rw [UInt32.toNat_ofNat_of_lt' hsize]
      omega
    · cases h
  · rintro ⟨m, rfl, rfl⟩
    have hlt : (m.toNat : Int) < 2 ^ 32 := by exact_mod_cast m.toNat_lt
    rw [if_pos ⟨Int.natCast_nonneg _, hlt⟩, Int.toNat_natCast, UInt32.ofNat_toNat]

theorem ofRange64_eq_ok_iff {n : Int} {assign : UInt64 → Assignment} {assignment : Assignment} :
    (if 0 ≤ n ∧ n < 2 ^ 64 then .ok (assign (UInt64.ofNat n.toNat))
      else .error .range : Except Mismatch Assignment) = .ok assignment
      ↔ ∃ m : UInt64, n = m.toNat ∧ assign m = assignment := by
  constructor
  · intro h
    split at h
    · rename_i hrange
      cases h
      have hsize : n.toNat < UInt64.size := by
        rw [UInt64.size]
        omega
      refine ⟨UInt64.ofNat n.toNat, ?_, rfl⟩
      rw [UInt64.toNat_ofNat_of_lt' hsize]
      omega
    · cases h
  · rintro ⟨m, rfl, rfl⟩
    have hlt : (m.toNat : Int) < 2 ^ 64 := by exact_mod_cast m.toNat_lt
    rw [if_pos ⟨Int.natCast_nonneg _, hlt⟩, Int.toNat_natCast, UInt64.ofNat_toNat]

theorem gives_of_assignmentOfEntry {setting : Setting} {place : List String} {entry : Entry}
    {assignment : Assignment} (h : assignmentOfEntry setting place entry = .ok assignment) :
    entry.Gives assignment ∧ assignment.setting = setting := by
  cases setting with
  | listenAddress =>
      obtain ⟨s, hs, h⟩ := (assignmentOfEntry_of_text (.inr rfl)).mp h
      obtain ⟨address, haddress, rfl⟩ := ofString_address_eq_ok_iff.mp h
      exact ⟨.listenAddress hs haddress, rfl⟩
  | nodeId =>
      obtain ⟨s, hs, h⟩ := (assignmentOfEntry_of_text (.inl rfl)).mp h
      cases h
      exact ⟨.nodeId hs, rfl⟩
  | role =>
      obtain ⟨s, hs, h⟩ := (assignmentOfEntry_of_name rfl).mp h
      obtain ⟨role, rfl, rfl⟩ := ofString_role_eq_ok_iff.mp h
      exact ⟨.role hs, rfl⟩
  | network =>
      obtain ⟨s, hs, h⟩ := (assignmentOfEntry_of_name rfl).mp h
      obtain ⟨network, rfl, rfl⟩ := ofString_network_eq_ok_iff.mp h
      exact ⟨.network hs, rfl⟩
  | maxConcurrentStreams =>
      obtain ⟨n, hn, h⟩ := (assignmentOfEntry_of_number rfl).mp h
      obtain ⟨m, rfl, rfl⟩ := ofRange32_eq_ok_iff.mp h
      exact ⟨.maxConcurrentStreams hn, rfl⟩
  | requestTimeout =>
      obtain ⟨n, hn, h⟩ := (assignmentOfEntry_of_number rfl).mp h
      obtain ⟨m, rfl, rfl⟩ := ofRange64_eq_ok_iff.mp h
      exact ⟨.requestTimeout hn, rfl⟩
  | maxMessageSize =>
      obtain ⟨n, hn, h⟩ := (assignmentOfEntry_of_number rfl).mp h
      obtain ⟨m, rfl, rfl⟩ := ofRange64_eq_ok_iff.mp h
      exact ⟨.maxMessageSize hn, rfl⟩
  | logLevel =>
      obtain ⟨s, hs, h⟩ := (assignmentOfEntry_of_text (.inl rfl)).mp h
      cases h
      exact ⟨.logLevel hs, rfl⟩

theorem assignmentOfEntry_of_gives {place : List String} {entry : Entry}
    {assignment : Assignment} (h : entry.Gives assignment) :
    assignmentOfEntry assignment.setting place entry = .ok assignment := by
  cases h with
  | listenAddress hs haddress =>
      exact (assignmentOfEntry_of_text (.inr rfl)).mpr
        ⟨_, hs, ofString_address_eq_ok_iff.mpr ⟨_, haddress, rfl⟩⟩
  | nodeId hs => exact (assignmentOfEntry_of_text (.inl rfl)).mpr ⟨_, hs, rfl⟩
  | role hname =>
      exact (assignmentOfEntry_of_name rfl).mpr
        ⟨_, hname, ofString_role_eq_ok_iff.mpr ⟨_, rfl, rfl⟩⟩
  | network hname =>
      exact (assignmentOfEntry_of_name rfl).mpr
        ⟨_, hname, ofString_network_eq_ok_iff.mpr ⟨_, rfl, rfl⟩⟩
  | maxConcurrentStreams hn =>
      refine (assignmentOfEntry_of_number rfl).mpr ⟨_, hn, ?_⟩
      simp only [Assignment.setting, Setting.ofInteger]
      exact ofRange32_eq_ok_iff.mpr ⟨_, rfl, rfl⟩
  | requestTimeout hn =>
      refine (assignmentOfEntry_of_number rfl).mpr ⟨_, hn, ?_⟩
      simp only [Assignment.setting, Setting.ofInteger]
      exact ofRange64_eq_ok_iff.mpr ⟨_, rfl, rfl⟩
  | maxMessageSize hn =>
      refine (assignmentOfEntry_of_number rfl).mpr ⟨_, hn, ?_⟩
      simp only [Assignment.setting, Setting.ofInteger]
      exact ofRange64_eq_ok_iff.mpr ⟨_, rfl, rfl⟩
  | logLevel hs => exact (assignmentOfEntry_of_text (.inl rfl)).mpr ⟨_, hs, rfl⟩

/-- An entry is taken for a setting exactly if it is valid for it. -/
theorem assignmentOfEntry_eq_ok_iff {setting : Setting} {place : List String} {entry : Entry}
    {assignment : Assignment} :
    assignmentOfEntry setting place entry = .ok assignment
      ↔ entry.Gives assignment ∧ assignment.setting = setting := by
  constructor
  · exact gives_of_assignmentOfEntry
  · rintro ⟨h, rfl⟩
    exact assignmentOfEntry_of_gives h

/-- An entry gives a setting at most one value. -/
theorem gives_unique {entry : Entry} {assignment other : Assignment} (h : entry.Gives assignment)
    (hother : entry.Gives other) (hsetting : assignment.setting = other.setting) :
    assignment = other := by
  have htaken : assignmentOfEntry assignment.setting [] entry = .ok assignment :=
    assignmentOfEntry_of_gives h
  have hsame : assignmentOfEntry assignment.setting [] entry = .ok other :=
    assignmentOfEntry_eq_ok_iff.mpr ⟨hother, hsetting.symm⟩
  rw [htaken] at hsame
  exact Except.ok.inj hsame

/-! ### Settings by name -/

/-- What a setting is set to. -/
def get (settings : Settings) : Setting → Assignment
  | .listenAddress => .listenAddress settings.listenAddress
  | .nodeId => .nodeId settings.nodeId
  | .role => .role settings.role
  | .network => .network settings.network
  | .maxConcurrentStreams => .maxConcurrentStreams settings.maxConcurrentStreams
  | .requestTimeout => .requestTimeout settings.requestTimeout
  | .maxMessageSize => .maxMessageSize settings.maxMessageSize
  | .logLevel => .logLevel settings.logLevel

@[simp] theorem setting_get (settings : Settings) (setting : Setting) :
    (settings.get setting).setting = setting := by
  cases setting <;> rfl

theorem get_assign (settings : Settings) (assignment : Assignment) (setting : Setting) :
    (settings.assign assignment).get setting
      = if setting = assignment.setting then assignment else settings.get setting := by
  cases assignment <;> cases setting <;> rfl

theorem ext_get {settings other : Settings}
    (h : ∀ setting, settings.get setting = other.get setting) : settings = other := by
  cases settings
  cases other
  congr
  · exact Assignment.listenAddress.inj (h .listenAddress)
  · exact Assignment.nodeId.inj (h .nodeId)
  · exact Assignment.role.inj (h .role)
  · exact Assignment.network.inj (h .network)
  · exact Assignment.maxConcurrentStreams.inj (h .maxConcurrentStreams)
  · exact Assignment.requestTimeout.inj (h .requestTimeout)
  · exact Assignment.maxMessageSize.inj (h .maxMessageSize)
  · exact Assignment.logLevel.inj (h .logLevel)

/-- Settings may be set to anything, each to a value of its own. -/
theorem exists_get_eq {values : Setting → Assignment}
    (h : ∀ setting, (values setting).setting = setting) :
    ∃ settings : Settings, ∀ setting, settings.get setting = values setting := by
  refine ⟨ofAssignments (Setting.all.map values), fun setting => ?_⟩
  cases setting <;> simp [ofAssignments, Setting.all, get_assign, h]

/-! ### A table -/

/-- What a setting is set to where an entry stands for it; where none does, it is left as it
was before. -/
def Takes (before : Settings) (setting : Setting) : Option Entry → Assignment → Prop
  | some entry, assignment => entry.Gives assignment
  | none, assignment => assignment = before.get setting

theorem takes_unique {before : Settings} {setting : Setting} {entry : Option Entry}
    {value other : Assignment} (h : Takes before setting entry value)
    (hother : Takes before setting entry other) (hsetting : value.setting = other.setting) :
    value = other := by
  cases entry with
  | none => exact Eq.trans h (Eq.symm hother)
  | some entry => exact gives_unique h hother hsetting

theorem takes_assign_iff {before : Settings} {given value : Assignment} {setting : Setting}
    {entry : Option Entry} (h : setting ≠ given.setting) :
    Takes (before.assign given) setting entry value
      ↔ Takes before setting entry value := by
  cases entry with
  | none => rw [Takes, Takes, get_assign, if_neg h]
  | some entry => rfl

theorem key_eq_of_ofKey? {key : String} {setting : Setting}
    (h : Setting.ofKey? key = some setting) : setting.key = key := by
  simpa using List.find?_some h

theorem key_injective {setting other : Setting} (h : setting.key = other.key) :
    setting = other := by
  have hsame := Setting.ofKey?_key setting
  rw [h, Setting.ofKey?_key] at hsame
  exact (Option.some.inj hsame).symm

theorem assignmentsOfTable_cons_of_none {key : String} (h : Setting.ofKey? key = none)
    (entry : Entry) (members : List (String × Entry)) :
    assignmentsOfTable ((key, entry) :: members) = assignmentsOfTable members := by
  rw [assignmentsOfTable, h]

theorem assignmentsOfTable_cons_eq_ok_iff {named : Setting} {entry : Entry}
    {members : List (String × Entry)} {assignments : List Assignment} :
    assignmentsOfTable ((named.key, entry) :: members) = .ok assignments
      ↔ ∃ given others, entry.Gives given ∧ given.setting = named ∧
          assignmentsOfTable members = .ok others ∧ assignments = given :: others := by
  have hcons : assignmentsOfTable ((named.key, entry) :: members)
      = assignmentOfEntry named [named.key] entry >>= fun given =>
          assignmentsOfTable members >>= fun others => .ok (given :: others) := by
    rw [assignmentsOfTable, Setting.ofKey?_key]
    rfl
  rw [hcons]
  constructor
  · intro h
    cases hentry : assignmentOfEntry named [named.key] entry with
    | error fault =>
        rw [hentry] at h
        cases h
    | ok given =>
        cases hothers : assignmentsOfTable members with
        | error fault =>
            rw [hentry, hothers] at h
            cases h
        | ok others =>
            rw [hentry, hothers] at h
            cases h
            obtain ⟨hgives, hsetting⟩ := assignmentOfEntry_eq_ok_iff.mp hentry
            exact ⟨given, others, hgives, hsetting, rfl, rfl⟩
  · rintro ⟨given, others, hgives, hsetting, hothers, rfl⟩
    rw [assignmentOfEntry_eq_ok_iff.mpr ⟨hgives, hsetting⟩, hothers]
    rfl

/-- An entry in front gives its setting the value that the rest leaves it at. -/
theorem takes_cons_iff {named : Setting} {entry : Entry} {members : List (String × Entry)}
    (hbehind : Keyed.lookup? named.key members = none) {before settings : Settings} :
    (∀ setting, Takes before setting
        (Keyed.lookup? setting.key ((named.key, entry) :: members)) (settings.get setting))
      ↔ entry.Gives (settings.get named) ∧
        ∀ setting, Takes (before.assign (settings.get named)) setting
          (Keyed.lookup? setting.key members) (settings.get setting) := by
  have hother {setting : Setting} (h : setting ≠ named) :
      Takes before setting (Keyed.lookup? setting.key ((named.key, entry) :: members))
          (settings.get setting)
        ↔ Takes (before.assign (settings.get named)) setting
          (Keyed.lookup? setting.key members) (settings.get setting) := by
    rw [Keyed.lookup?, if_neg (mt key_injective h), takes_assign_iff (by rwa [setting_get])]
  constructor
  · intro h
    refine ⟨by simpa [Keyed.lookup?, Takes] using h named, fun setting => ?_⟩
    by_cases hsetting : setting = named
    · subst hsetting
      rw [hbehind, Takes, get_assign, if_pos (setting_get settings setting).symm]
    · exact (hother hsetting).mp (h setting)
  · rintro ⟨hgives, h⟩ setting
    by_cases hsetting : setting = named
    · subst hsetting
      simpa [Keyed.lookup?, Takes] using hgives
    · exact (hother hsetting).mpr (h setting)

/-- A table is read key by key, with no regard to the other keys. -/
theorem exists_assignments_iff {members : List (String × Entry)} (hsorted : Keyed.Sorted members)
    (before settings : Settings) :
    (∃ assignments, assignmentsOfTable members = .ok assignments ∧
        assignments.foldl assign before = settings)
      ↔ ∀ setting, Takes before setting (Keyed.lookup? setting.key members)
          (settings.get setting) := by
  induction members generalizing before with
  | nil =>
      constructor
      · rintro ⟨assignments, h, rfl⟩ setting
        cases h
        rfl
      · exact fun h => ⟨[], rfl, (ext_get h).symm⟩
  | cons member members ih =>
      obtain ⟨key, entry⟩ := member
      obtain ⟨hhead, hrest⟩ := List.pairwise_cons.mp hsorted
      cases hkey : Setting.ofKey? key with
      | none =>
          rw [assignmentsOfTable_cons_of_none hkey, ih hrest before]
          refine forall_congr' fun setting => ?_
          have hne : setting.key ≠ key := by
            rintro rfl
            rw [Setting.ofKey?_key] at hkey
            cases hkey
          rw [Keyed.lookup?, if_neg hne]
      | some named =>
          obtain rfl := key_eq_of_ofKey? hkey
          -- The setting is given here and not behind, where the keys are greater.
          have hbehind : Keyed.lookup? named.key members = none :=
            Keyed.lookup?_eq_none_of_lt hhead
          rw [takes_cons_iff hbehind, ← ih hrest]
          constructor
          · rintro ⟨assignments, h, hfold⟩
            obtain ⟨given, others, hgives, rfl, hothers, rfl⟩ :=
              assignmentsOfTable_cons_eq_ok_iff.mp h
            have hvalue :=
              (ih hrest (before.assign given)).mp ⟨others, hothers, hfold⟩ given.setting
            rw [hbehind, Takes, get_assign, if_pos rfl] at hvalue
            rw [hvalue]
            exact ⟨hgives, others, hothers, hfold⟩
          · rintro ⟨hgives, others, hothers, hfold⟩
            exact ⟨_, assignmentsOfTable_cons_eq_ok_iff.mpr
              ⟨_, others, hgives, setting_get settings named, hothers, rfl⟩, hfold⟩

/-- A table gives settings if each setting takes what stands under its key. -/
theorem ofTable_eq_ok_iff {origin : Origin} {members : List (String × Entry)}
    (hsorted : Keyed.Sorted members) (settings : Settings) :
    ofEntry (.table origin members) = .ok settings
      ↔ ∀ setting, Takes {} setting (Keyed.lookup? setting.key members) (settings.get setting) := by
  rw [← exists_assignments_iff hsorted, ofEntry]
  cases assignmentsOfTable members <;> simp [Except.map, ofAssignments]

/-! ### Keys that name no setting -/

/-- The keys that name no setting have no part in what a table gives. -/
theorem assignmentsOfTable_filter (members : List (String × Entry)) :
    assignmentsOfTable (members.filter fun member => (Setting.ofKey? member.1).isSome)
      = assignmentsOfTable members := by
  induction members with
  | nil => rfl
  | cons member members ih =>
      obtain ⟨key, entry⟩ := member
      rw [assignmentsOfTable]
      cases hkey : Setting.ofKey? key with
      | none => simpa [hkey] using ih
      | some named => simp [hkey, assignmentsOfTable, ih]

theorem lookup?_filter (key : String) (members : List (String × Entry)) :
    Keyed.lookup? key (members.filter fun member => (Setting.ofKey? member.1).isSome)
      = if (Setting.ofKey? key).isSome then Keyed.lookup? key members else none := by
  induction members with
  | nil => simp
  | cons member members ih =>
      obtain ⟨other, entry⟩ := member
      by_cases hkey : key = other
      · subst hkey
        cases hnamed : Setting.ofKey? key <;> simp_all [Keyed.lookup?]
      · cases hnamed : Setting.ofKey? other <;> simp [Keyed.lookup?, hkey, hnamed, ih]

/-- Tables with the same entry for every setting give the same. -/
theorem ofTable_congr {origin origin' : Origin} {members members' : List (String × Entry)}
    (hsorted : Keyed.Sorted members) (hsorted' : Keyed.Sorted members')
    (h : ∀ setting : Setting,
      Keyed.lookup? setting.key members = Keyed.lookup? setting.key members') :
    ofEntry (.table origin members) = ofEntry (.table origin' members') := by
  have hfilter : members.filter (fun member => (Setting.ofKey? member.1).isSome)
      = members'.filter fun member => (Setting.ofKey? member.1).isSome := by
    refine Keyed.Sorted.ext (hsorted.filter _) (hsorted'.filter _) fun key => ?_
    rw [lookup?_filter, lookup?_filter]
    cases hkey : Setting.ofKey? key with
    | none => rfl
    | some named => rw [← key_eq_of_ofKey? hkey, h named]
  rw [ofEntry, ofEntry, ← assignmentsOfTable_filter members, hfilter, assignmentsOfTable_filter]

end Settings

end NodeView
