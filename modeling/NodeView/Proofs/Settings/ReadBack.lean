import NodeView.Proofs.Json.Printed
import NodeView.Proofs.Settings.Layering
import NodeView.Settings.OfText
/-!
# NodeView.Proofs.Settings.ReadBack

Settings are read back from what is written for them.

Each member of a document gives its setting the value that the setting has
(`assignmentOfJson_value`, `readMember_of_writes`), so members among which every setting stands once
give the settings, whatever their order (`ofJson_members`). The same goes for every text that writes
such members, with whatever blanks and however its strings are spelled (`ofText_of_writes`), and the
two forms that are printed are such texts.
-/

namespace NodeView.Settings

open Json (EndsNumber WritesMember WritesMembers WritesScalar)
open Text (Blanks)

/-! ### Members -/

/-- What a document has for a setting. -/
def value (settings : Settings) : Setting → Json
  | .listenAddress => .string settings.listenAddress.text
  | .nodeId => .string settings.nodeId
  | .role => .string settings.role.name
  | .network => .string settings.network.name
  | .maxConcurrentStreams => .integer settings.maxConcurrentStreams.toNat
  | .requestTimeout => .integer settings.requestTimeout.toNat
  | .maxMessageSize => .integer settings.maxMessageSize.toNat
  | .logLevel => .string settings.logLevel

/-- The members of a document for some settings, in their order. -/
def members (settings : Settings) (order : List Setting) : List (String × Json) :=
  order.map fun setting => (setting.key, settings.value setting)

theorem document_eq (settings : Settings) :
    settings.document = .object (settings.members Setting.all) := rfl

/-- A member gives its setting the value that the setting has. -/
theorem assignmentOfJson_value (settings : Settings) (setting : Setting) :
    assignmentOfJson setting (settings.value setting) = .ok (settings.get setting) := by
  cases setting with
  | listenAddress =>
      exact mapError_eq_ok.mpr
        (ofString_address_eq_ok_iff.mpr ⟨_, SocketAddress.ofText?_text _, rfl⟩)
  | nodeId | logLevel => rfl
  | role => exact mapError_eq_ok.mpr (ofString_role_eq_ok_iff.mpr ⟨_, rfl, rfl⟩)
  | network => exact mapError_eq_ok.mpr (ofString_network_eq_ok_iff.mpr ⟨_, rfl, rfl⟩)
  | maxConcurrentStreams =>
      simp only [assignmentOfJson, Setting.domain, value, mapError_eq_ok, Setting.ofInteger]
      exact ofRange32_eq_ok_iff.mpr ⟨_, rfl, rfl⟩
  | requestTimeout | maxMessageSize =>
      simp only [assignmentOfJson, Setting.domain, value, mapError_eq_ok, Setting.ofInteger]
      exact ofRange64_eq_ok_iff.mpr ⟨_, rfl, rfl⟩

/-- Assignments of every setting leave nothing of the defaults. -/
theorem ofAssignments_get (settings : Settings) {order : List Setting}
    (hall : ∀ setting, setting ∈ order) :
    ofAssignments (order.map settings.get) = settings := by
  have hfold (before : Settings) (setting : Setting) :
      ((order.map settings.get).foldl assign before).get setting
        = if setting ∈ order then settings.get setting else before.get setting := by
    clear hall
    induction order generalizing before with
    | nil => rfl
    | cons first order ih =>
        rw [List.map_cons, List.foldl_cons, ih, get_assign, setting_get]
        by_cases hfirst : setting = first
        · simp [hfirst]
        · simp [hfirst]
  exact ext_get fun setting => (hfold {} setting).trans (if_pos (hall setting))

/-! ### A value -/

/-- The members are read one by one, in whatever order they come. -/
theorem assignmentsOfMembers_members (settings : Settings) (order : List Setting) :
    assignmentsOfMembers (settings.members order) = .ok (order.map settings.get) := by
  induction order with
  | nil => rfl
  | cons setting order ih =>
      have hcons : settings.members (setting :: order)
          = (setting.key, settings.value setting) :: settings.members order := rfl
      rw [hcons, assignmentsOfMembers, Setting.ofKey?_key]
      simp only [assignmentOfJson_value, ih]
      rfl

theorem ofJson_members (settings : Settings) {order : List Setting}
    (hall : ∀ setting, setting ∈ order) :
    ofJson (.object (settings.members order)) = .ok settings := by
  rw [ofJson, assignmentsOfMembers_members]
  exact congrArg Except.ok (ofAssignments_get settings hall)

/-! ### A text -/

theorem exists_quote_of_writes {text : List Char} {s : String}
    (h : WritesScalar text (.string s)) : ∃ more, text = '"' :: more := by
  generalize hvalue : Json.string s = value at h
  cases h with
  | string h => exact ⟨_, rfl⟩
  | @number text n h => cases n <;> cases hvalue
  | _ => cases hvalue

section

variable {settings : Settings} {setting : Setting} {text rest : List Char}
  (hrest : EndsNumber rest)

include hrest

theorem readSimple_of_writes (h : WritesScalar text (settings.value setting)) :
    readSimple setting (text ++ rest) = .ok (settings.get setting, rest) := by
  rw [readSimple, readShallow, h.readValueWith _ _ hrest]
  simp only [reading, Except.mapError]
  show (assignmentOfJson setting (settings.value setting) >>= _) = _
  rw [assignmentOfJson_value]
  rfl

/-- A text for the value of a setting is read as this value, behind blanks. -/
theorem readAssignment_of_writes (h : WritesScalar text (settings.value setting))
    {blanks : List Char} (hblanks : Blanks Json.isBlank blanks) :
    readAssignment setting (blanks ++ (text ++ rest)) = .ok (settings.get setting, rest) := by
  have hread := readSimple_of_writes hrest h
  have hstart : Json.skipBlanks (blanks ++ (text ++ rest)) = text ++ rest := by
    obtain ⟨c, more, rfl, hblank, -⟩ := h.startsValue
    rw [Json.skipBlanks_append hblanks, List.cons_append, Json.skipBlanks_cons hblank]
  rw [readAssignment, hstart]
  cases setting with
  | role | network =>
      -- A name is a string: what starts with a brace would be a choice in the form of an object.
      obtain ⟨more, rfl⟩ := exists_quote_of_writes h
      exact hread
  | _ => exact hread

/-- A text for a member gives its setting the value that the setting has. -/
theorem readMember_of_writes
    (h : WritesMember WritesScalar text (setting.key, settings.value setting))
    {given : List Setting} (hgiven : setting ∉ given) :
    readMember given (text ++ rest) = .ok (some (setting, settings.get setting), rest) := by
  generalize hmember : (setting.key, settings.value setting) = member at h
  cases h with
  | @colon key cs blanks blanks' text value hkey h h' hvalue =>
      obtain ⟨hcs, rfl⟩ := Prod.mk.inj hmember
      have hread := readAssignment_of_writes hrest hvalue h'
      have hcolon : readColon (blanks ++ ':' :: (blanks' ++ (text ++ rest)))
          = .ok (blanks' ++ (text ++ rest)) := by
        simp only [readColon, Json.skipBlanks_append h, Json.skipBlanks_colon]
      have hname : Setting.ofKey? (String.ofList cs) = some setting := by
        rw [← hcs, Setting.ofKey?_key]
      rw [List.append_assoc, List.cons_append, List.append_assoc, List.cons_append,
        List.append_assoc, readMember, hkey.readString]
      simp only [reading, Except.mapError, bind, Except.bind, hname, if_neg hgiven, hcolon, hread]
      rfl

end

/-- What is written for more members gives their settings, of which none was given before. -/
theorem readMembers_of_writes {settings : Settings} {order : List Setting} {text : List Char}
    (h : WritesMembers WritesScalar text (settings.members order)) (hnodup : order.Nodup)
    {done : List (Setting × Assignment)} (hnew : ∀ setting ∈ order, setting ∉ done.map Prod.fst)
    {bound : List Char} (hbound : order.length < bound.length) (rest : List Char) :
    readMembers false done bound (text ++ rest)
      = .ok (done.reverse.map Prod.snd ++ order.map settings.get, rest) := by
  induction order generalizing done text bound with
  | nil =>
      cases bound with
      | nil => cases hbound
      | cons step bound =>
          cases h with
          | nil h => simp [readMembers, Json.skipBlanks_append h, Json.skipBlanks_brace]
  | cons setting order ih =>
      cases bound with
      | nil => cases hbound
      | cons step bound =>
          cases h with
          | cons h h' hmember hmore =>
              obtain ⟨hfirst, hnodup⟩ := List.nodup_cons.mp hnodup
              obtain ⟨hgiven, hnew⟩ := List.forall_mem_cons.mp hnew
              have hread := readMember_of_writes (hmore.endsNumber rest) hmember hgiven
              have hnew : ∀ other ∈ order,
                  other ∉ ((setting, settings.get setting) :: done).map Prod.fst :=
                fun other hmem => List.not_mem_cons_of_ne_of_not_mem
                  (ne_of_mem_of_not_mem hmem hfirst) (hnew other hmem)
              have hrest := ih hmore hnodup hnew (Nat.lt_of_succ_lt_succ hbound)
              simp [readMembers, Json.skipBlanks_append h, Json.skipBlanks_comma,
                Json.skipBlanks_append h', Json.skipBlanks_quote, hread, hrest]

theorem readSettings_of_writes {settings : Settings} {setting : Setting} {order : List Setting}
    (hnodup : (setting :: order).Nodup) {blanks text more : List Char}
    (hblanks : Blanks Json.isBlank blanks)
    (hmember : WritesMember WritesScalar text (setting.key, settings.value setting))
    (hmore : WritesMembers WritesScalar more (settings.members order)) (rest : List Char) :
    readSettings ('\x7b' :: (blanks ++ '"' :: (text ++ (more ++ rest))))
      = .ok ((setting :: order).map settings.get, rest) := by
  obtain ⟨hfirst, hnodup⟩ := List.nodup_cons.mp hnodup
  have hread : readMember [] (text ++ (more ++ rest))
      = .ok (some (setting, settings.get setting), more ++ rest) :=
    readMember_of_writes (hmore.endsNumber rest) hmember List.not_mem_nil
  have hnew : ∀ other ∈ order, other ∉ [(setting, settings.get setting)].map Prod.fst :=
    fun other hmem => by simpa using ne_of_mem_of_not_mem hmem hfirst
  obtain ⟨step, bound, hbound⟩ : ∃ step bound,
      blanks ++ '"' :: (text ++ (more ++ rest)) = step :: bound :=
    List.exists_cons_of_ne_nil (by simp)
  have hlength : order.length < bound.length := by
    have hlt := hmore.length_lt
    have hsame := congrArg List.length hbound
    simp only [members, List.length_map, List.length_append, List.length_cons] at hlt hsame
    omega
  have hrest := readMembers_of_writes hmore hnodup hnew hlength rest
  simp only [readSettings, Json.skipBlanks_cons (rfl : Json.isBlank '\x7b' = false)]
  nth_rewrite 1 [hbound]
  simp [readMembers, Json.skipBlanks_append hblanks, Json.skipBlanks_quote, hread, hrest]

/-- A text that writes the members of all settings gives them, whatever their order. -/
theorem ofText_of_writes {settings : Settings} {setting : Setting} {order : List Setting}
    (hnodup : (setting :: order).Nodup) (hall : ∀ other, other ∈ setting :: order)
    {blanks text more : List Char} (hblanks : Blanks Json.isBlank blanks)
    (hmember : WritesMember WritesScalar text (setting.key, settings.value setting))
    (hmore : WritesMembers WritesScalar more (settings.members order)) :
    ofText (String.ofList ('\x7b' :: (blanks ++ '"' :: (text ++ more)))) = .ok settings := by
  have hread := readSettings_of_writes hnodup hblanks hmember hmore []
  rw [List.append_nil] at hread
  rw [ofText, String.toList_ofList, hread]
  exact congrArg Except.ok (ofAssignments_get settings hall)

/-! ### Printed texts -/

theorem printable_value (settings : Settings) (setting : Setting) (depth : Nat) :
    (settings.value setting).Printable depth := by
  cases setting with
  | maxConcurrentStreams =>
      have hlt := settings.maxConcurrentStreams.toNat_lt
      exact Json.printable_natCast (by omega) depth
  | requestTimeout => exact Json.printable_natCast settings.requestTimeout.toNat_lt depth
  | maxMessageSize => exact Json.printable_natCast settings.maxMessageSize.toNat_lt depth
  | _ => exact trivial

theorem printableMembers_members (settings : Settings) (order : List Setting) (depth : Nat) :
    Json.PrintableMembers (settings.members order) depth := by
  refine Json.printableMembers_iff.mpr fun member hmember => ?_
  obtain ⟨setting, -, rfl⟩ := List.mem_map.mp hmember
  exact printable_value settings setting depth

theorem sortKeys_value (settings : Settings) (setting : Setting) :
    (settings.value setting).sortKeys = settings.value setting := by
  cases setting <;> rfl

theorem sortMembers_members (settings : Settings) (order : List Setting) :
    Json.sortMembers (settings.members order) = settings.members order := by
  induction order with
  | nil => rfl
  | cons setting order ih =>
      exact congrArg₂ List.cons (congrArg (Prod.mk _) (sortKeys_value settings setting)) ih

section

variable (settings : Settings) {order : List Setting} (hnodup : order.Nodup)
  (hall : ∀ setting, setting ∈ order)

include hnodup hall

theorem ofText_compact : ofText (Json.object (settings.members order)).compact = .ok settings := by
  cases order with
  | nil => exact absurd (hall .nodeId) List.not_mem_nil
  | cons setting order =>
      have hvalue := Json.writes_compactChars _ 0 (printable_value settings setting 0)
      have hmore := Json.writesMembers_compact _ 0 (printableMembers_members settings order 0)
      rw [sortKeys_value] at hvalue
      rw [sortMembers_members] at hmore
      have hread := ofText_of_writes hnodup hall Text.blanks_nil
        (Json.writesMember_stringChars setting.key Text.blanks_nil hvalue) hmore
      rw [List.nil_append, List.nil_append, ← Json.compactMembers_cons] at hread
      exact hread

theorem ofText_pretty : ofText (Json.object (settings.members order)).pretty = .ok settings := by
  cases order with
  | nil => exact absurd (hall .nodeId) List.not_mem_nil
  | cons setting order =>
      have hvalue := Json.writes_prettyChars _ 0 1 (printable_value settings setting 0)
      have hmore := Json.writesMembers_pretty _ 0 0 (printableMembers_members settings order 0)
      rw [sortKeys_value] at hvalue
      rw [sortMembers_members] at hmore
      have hread := ofText_of_writes hnodup hall (Json.blanks_newline 1)
        (Json.writesMember_stringChars setting.key Json.blanks_space hvalue) hmore
      rw [← Json.prettyMembers_cons] at hread
      exact hread

end

/-! ### The documents of settings -/

/-- In a value the members of a document stand in the order of their keys. -/
def keyOrder : List Setting :=
  [.listenAddress, .logLevel, .maxConcurrentStreams, .maxMessageSize, .network, .nodeId, .role,
   .requestTimeout]

theorem sortKeys_document (settings : Settings) :
    settings.document.sortKeys = .object (settings.members keyOrder) := by
  have hperm : Setting.all.Perm keyOrder := by decide
  have hsorted : Keyed.Sorted (settings.members keyOrder) :=
    List.pairwise_map.mpr (by decide : keyOrder.Pairwise fun a b => a.key < b.key)
  rw [document_eq, Json.sortKeys, sortMembers_members]
  exact congrArg Json.object (Keyed.ofList_eq_of_perm (hperm.map _) hsorted)

/-- **Settings are read back.** Their document gives them again: as a value, with its members in the
order of declaration or in that of their keys, and as a text, compact or pretty. The text of an
address, of either version, is always one of that address. -/
theorem read_back (settings : Settings) :
    ofText settings.toJsonText = .ok settings ∧
    ofText settings.document.pretty = .ok settings ∧
    ofJson settings.document = .ok settings ∧
    ofJson settings.document.sortKeys = .ok settings ∧
    ∀ address : SocketAddress, SocketAddress.ofText? address.text = some address := by
  have hnodup : Setting.all.Nodup := by decide
  have hall : ∀ setting, setting ∈ Setting.all := fun setting => by cases setting <;> decide
  have hkeys : ∀ setting, setting ∈ keyOrder := fun setting => by cases setting <;> decide
  rw [toJsonText, sortKeys_document, document_eq]
  exact ⟨ofText_compact settings hnodup hall, ofText_pretty settings hnodup hall,
    ofJson_members settings hall, ofJson_members settings hkeys, SocketAddress.ofText?_text⟩

/-- As the layer under an environment that is empty, settings give themselves. -/
theorem extract_layer (settings : Settings) : extract [] (layer settings) = .ok settings := by
  obtain ⟨members, hbase, hsorted, hgives⟩ := exists_layer settings
  refine (extract_eq_ok_iff [] hbase hsorted settings).mpr fun setting => ?_
  obtain ⟨entry, hentry, hgives⟩ := hgives setting
  simp only [standing, Environment.given_nil, Keyed.lookup?_nil, Option.merge_none_left, hentry]
  exact hgives

end NodeView.Settings
