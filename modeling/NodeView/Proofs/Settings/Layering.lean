import NodeView.Proofs.Layer.Environment
import NodeView.Proofs.Settings.OfLayer
import NodeView.Proofs.Settings.SocketAddress
import NodeView.Proofs.Toml.Ordered
import NodeView.Settings.Load
/-!
# NodeView.Proofs.Settings.Layering

Where settings come from.

Either load reads one table (`extract_eq`), in which what the environment gives a setting is laid
over what the file gives it (`standing`), and a table is read key by key (`Source.eq_ok_iff`).
Where no value of the environment is a table, a setting has the value that the environment gives
it, else the one that the file gives it, else its default (`chosen`). So settings have no part in
each other (`layered`).
-/

namespace NodeView.Settings

/-- A variable names a setting if its name is the fixed word with the key of the setting behind
it, in letters of either case and with white space at the ends. -/
def Names (name : String) (setting : Setting) : Prop :=
  (Text.trimChars name.toList).map Char.toLower
    = (Environment.leadingWord ++ setting.key.toList).map Char.toLower

instance (name : String) (setting : Setting) : Decidable (Names name setting) :=
  inferInstanceAs (Decidable (_ = _))

/-- The value that an environment gives a setting: that of the last variable which names it. -/
def environmentValue (environment : List (String × String)) (setting : Setting) : Option Entry :=
  (environment.reverse.find? fun (name, _) => Names name setting).map fun (_, text) =>
    EnvironmentValue.entryOf text

/-- A load with what its file gives the settings: without a file, or from a path that leads to a
TOML document with a table of settings. -/
inductive Source :
    (Setting → Option Entry) → (List (String × String) → Except LoadError Settings) → Prop
  | defaults : Source (fun _ => none) fromEnvironment
  | file {files : Files} {path shown text : String} {bytes : List UInt8}
      {document members : List (String × Toml)} (hextension : Path.extension? path = some "toml")
      (hread : files.read path = .ok bytes)
      (htext : String.fromUTF8? ⟨bytes.toArray⟩ = some text)
      (hparse : Toml.parse text = some document)
      (htable : Keyed.lookup? Environment.tableKey document = some (.table members)) :
      Source
        (fun setting => (Keyed.lookup? setting.key members).map (Entry.ofToml (.file shown)))
        (fun environment => fromPath files environment path shown)

/-- The value that is chosen for a setting, if it has one: that of the environment, or else that
of the file. -/
def chosen (environment : List (String × String)) (file : Setting → Option Entry)
    (setting : Setting) : Option Entry :=
  (environmentValue environment setting).or (file setting)

/-- What stands for a setting, if anything does: what the environment gives it, laid over what the
file gives it. -/
def standing (environment : List (String × String)) (file : Setting → Option Entry)
    (setting : Setting) : Option Entry :=
  Option.merge Entry.overlay (Keyed.lookup? setting.key (Environment.given environment))
    (file setting)

/-! ### The environment -/

theorem key?_eq_some_iff_names {name : String} {setting : Setting} :
    Environment.key? name = some setting.key ↔ Names name setting :=
  Environment.key?_eq_some_iff (by cases setting <;> decide) (by cases setting <;> decide)

theorem lookup?_given_key {environment : List (String × String)}
    (h : Environment.Plain environment) (setting : Setting) :
    Keyed.lookup? setting.key (Environment.given environment)
      = environmentValue environment setting := by
  simp only [Environment.given_eq h, Environment.lookup?_entries, key?_eq_some_iff_names,
    environmentValue]

/-- Where no value of the environment is a table, what stands for a setting is the chosen
value. -/
theorem standing_eq_chosen {environment : List (String × String)}
    (h : Environment.Plain environment) (file : Setting → Option Entry) (setting : Setting) :
    standing environment file setting = chosen environment file setting := by
  rw [standing, chosen, ← lookup?_given_key h]
  refine Entry.merge_overlay_of_isPlain (fun entry hentry => ?_) (file setting)
  rw [Environment.given_eq h] at hentry
  exact h.isPlain_of_mem_ofList _
    ((Keyed.lookup?_eq_some_iff_mem (Keyed.sorted_ofList _).nodup_keys).mp hentry)

/-- The table that is read is that of the environment, laid over that of the base. -/
theorem extract_eq (environment : List (String × String)) {base : Layer} {origin : Origin}
    {members : List (String × Entry)}
    (hbase : Keyed.lookup? Environment.tableKey base = some (.table origin members)) :
    ∃ origin', extract environment base
      = (ofEntry (.table origin' (Entry.overlayLayer
          (Environment.given environment) members))).mapError .invalid := by
  rw [extract, Environment.layer_eq]
  cases hgiven : Environment.given environment with
  | nil =>
      refine ⟨origin, ?_⟩
      simp [Environment.layerOf, Layer.overlay, Entry.overlayLayer, hbase]
  | cons member others =>
      refine ⟨.environment, ?_⟩
      simp [Environment.layerOf, Layer.overlay, Entry.overlayLayer, hbase, Keyed.lookup?_insert,
        Entry.overlay]

theorem extract_eq_ok_iff (environment : List (String × String)) {base : Layer} {origin : Origin}
    {members : List (String × Entry)}
    (hbase : Keyed.lookup? Environment.tableKey base = some (.table origin members))
    (hsorted : Keyed.Sorted members) (settings : Settings) :
    extract environment base = .ok settings
      ↔ ∀ setting, Takes {} setting
          (standing environment (fun setting => Keyed.lookup? setting.key members) setting)
          (settings.get setting) := by
  obtain ⟨origin', hextract⟩ := extract_eq environment hbase
  rw [hextract, mapError_eq_ok, ofTable_eq_ok_iff (Entry.sorted_overlayLayer _ hsorted)]
  simp only [Entry.lookup?_overlayLayer (Environment.sorted_given environment), standing]

/-- Where every setting is given the same by the environment, the outcome is the same. -/
theorem extract_congr {environment environment' : List (String × String)} {base : Layer}
    {origin : Origin} {members : List (String × Entry)}
    (hbase : Keyed.lookup? Environment.tableKey base = some (.table origin members))
    (hsorted : Keyed.Sorted members)
    (hsame : ∀ setting : Setting, Keyed.lookup? setting.key (Environment.given environment)
      = Keyed.lookup? setting.key (Environment.given environment')) :
    extract environment base = extract environment' base := by
  obtain ⟨_, hextract⟩ := extract_eq environment hbase
  obtain ⟨_, hextract'⟩ := extract_eq environment' hbase
  rw [hextract, hextract']
  congr 1
  refine ofTable_congr (Entry.sorted_overlayLayer _ hsorted) (Entry.sorted_overlayLayer _ hsorted)
    fun setting => ?_
  rw [Entry.lookup?_overlayLayer (Environment.sorted_given environment),
    Entry.lookup?_overlayLayer (Environment.sorted_given environment'), hsame]

/-! ### The base -/

/-- The layer of settings is a table with an entry for every setting that gives it its value. -/
theorem exists_layer (settings : Settings) : ∃ members : List (String × Entry),
    Keyed.lookup? Environment.tableKey (layer settings) = some (.table .defaults members) ∧
    Keyed.Sorted members ∧
    ∀ setting : Setting, ∃ entry, Keyed.lookup? setting.key members = some entry ∧
      entry.Gives (settings.get setting) := by
  refine ⟨_, by rw [layer, Keyed.lookup?, if_pos rfl], Keyed.sorted_ofList _, fun setting => ?_⟩
  rw [Keyed.lookup?_ofList]
  cases setting with
  | listenAddress =>
      exact ⟨_, rfl, .listenAddress rfl (SocketAddress.ofText?_text settings.listenAddress)⟩
  | nodeId => exact ⟨_, rfl, .nodeId rfl⟩
  | role => exact ⟨_, rfl, .role rfl⟩
  | network => exact ⟨_, rfl, .network rfl⟩
  | maxConcurrentStreams => exact ⟨_, rfl, .maxConcurrentStreams rfl⟩
  | requestTimeout => exact ⟨_, rfl, .requestTimeout rfl⟩
  | maxMessageSize => exact ⟨_, rfl, .maxMessageSize rfl⟩
  | logLevel => exact ⟨_, rfl, .logLevel rfl⟩

/-- A default that stands for a setting is as good as none. -/
theorem takes_default_iff {setting : Setting} {entry : Entry} {value : Assignment}
    (h : entry.Gives (({} : Settings).get setting)) (hsetting : value.setting = setting) :
    Takes {} setting (some entry) value ↔ Takes {} setting none value := by
  constructor
  · exact fun hvalue => gives_unique hvalue h (by rw [hsetting, setting_get])
  · rintro rfl
    exact h

theorem entriesOfMembers_eq_map (origin : Origin) (members : List (String × Toml)) :
    entriesOfMembers origin members
      = members.map fun member => (member.1, Entry.ofToml origin member.2) := by
  induction members with
  | nil => rfl
  | cons member members ih => rw [entriesOfMembers, ih, List.map_cons]

theorem lookup?_entriesOfMembers (origin : Origin) (members : List (String × Toml))
    (key : String) :
    Keyed.lookup? key (entriesOfMembers origin members)
      = (Keyed.lookup? key members).map (Entry.ofToml origin) := by
  rw [entriesOfMembers_eq_map, Keyed.lookup?_map]

/-- The base of a load from a path is the layer of its document. -/
theorem fromPath_eq_extract {files : Files} {environment : List (String × String)}
    {path shown text : String} {bytes : List UInt8} {document : List (String × Toml)}
    (hextension : Path.extension? path = some "toml") (hread : files.read path = .ok bytes)
    (htext : String.fromUTF8? ⟨bytes.toArray⟩ = some text)
    (hparse : Toml.parse text = some document) :
    fromPath files environment path shown
      = extract environment (Layer.ofToml (.file shown) document) := by
  have hfile : fileLayer shown bytes = .ok (Layer.ofToml (.file shown) document) := by
    simp only [fileLayer, htext, hparse]
  simp only [fromPath, hextension, hread, hfile, ne_eq, not_true_eq_false, if_false]

/-- What gives a setting something is no table. -/
theorem isPlain_of_gives {entry : Entry} {value : Assignment} (h : entry.Gives value) :
    entry.IsPlain := by
  rintro origin members rfl
  cases h with
  | listenAddress hs _ => cases hs
  | nodeId hs => cases hs
  | role hname => cases hname
  | network hname => cases hname
  | maxConcurrentStreams hn => cases hn
  | requestTimeout hn => cases hn
  | maxMessageSize hn => cases hn
  | logLevel hs => cases hs

/-- A load reads a base with a table, which has for each setting what its file gives, or the
default. -/
theorem Source.exists_base {file : Setting → Option Entry}
    {load : List (String × String) → Except LoadError Settings} (h : Source file load) :
    ∃ base origin members, (∀ environment, load environment = extract environment base) ∧
      Keyed.lookup? Environment.tableKey base = some (.table origin members) ∧
      Keyed.Sorted members ∧
      ∀ environment (settings : Settings) (setting : Setting),
        Takes {} setting
            (standing environment (fun setting => Keyed.lookup? setting.key members) setting)
            (settings.get setting)
          ↔ Takes {} setting (standing environment file setting) (settings.get setting) := by
  cases h with
  | defaults =>
      obtain ⟨members, hbase, hsorted, hdefaults⟩ := exists_layer {}
      refine ⟨layer {}, .defaults, members, fun _ => rfl, hbase, hsorted, ?_⟩
      intro environment settings setting
      obtain ⟨entry, hentry, hgives⟩ := hdefaults setting
      rw [standing, standing, hentry]
      cases Keyed.lookup? setting.key (Environment.given environment) with
      | none => exact takes_default_iff hgives (setting_get settings setting)
      | some given =>
          rw [Option.merge_some_some, (isPlain_of_gives hgives).overlay_left]
          rfl
  | @file files path shown text bytes document members hextension hread htext hparse htable =>
      refine ⟨Layer.ofToml (.file shown) document, .file shown,
        entriesOfMembers (.file shown) members,
        fun _ => fromPath_eq_extract hextension hread htext hparse, ?_, ?_, ?_⟩
      · rw [Layer.ofToml, lookup?_entriesOfMembers, htable, Option.map_some, Entry.ofToml]
      · rw [entriesOfMembers_eq_map]
        exact List.pairwise_map.mpr (Toml.sorted_of_lookup? (Toml.ordered_of_parse hparse) htable)
      · intro environment settings setting
        rw [standing, lookup?_entriesOfMembers, standing]

/-- A load gives settings exactly if each of them takes what stands for it. -/
theorem Source.eq_ok_iff {file : Setting → Option Entry}
    {load : List (String × String) → Except LoadError Settings} (h : Source file load)
    (environment : List (String × String)) (settings : Settings) :
    load environment = .ok settings
      ↔ ∀ setting,
          Takes {} setting (standing environment file setting) (settings.get setting) := by
  obtain ⟨base, origin, members, hload, hbase, hsorted, htakes⟩ := h.exists_base
  rw [hload, extract_eq_ok_iff environment hbase hsorted]
  exact forall_congr' fun setting => htakes environment settings setting

/-- A load succeeds exactly if whatever stands for a setting is valid. -/
theorem Source.exists_ok_iff {file : Setting → Option Entry}
    {load : List (String × String) → Except LoadError Settings} (h : Source file load)
    (environment : List (String × String)) :
    (∃ settings, load environment = .ok settings)
      ↔ ∀ setting entry, standing environment file setting = some entry →
          ∃ value, entry.Gives value ∧ value.setting = setting := by
  constructor
  · rintro ⟨settings, hok⟩ setting entry hstanding
    have htakes := (h.eq_ok_iff environment settings).mp hok setting
    rw [hstanding] at htakes
    exact ⟨settings.get setting, htakes, setting_get settings setting⟩
  · intro hvalid
    have hvalue (setting : Setting) : ∃ value : Assignment, value.setting = setting ∧
        Takes {} setting (standing environment file setting) value := by
      cases hstanding : standing environment file setting with
      | none => exact ⟨({} : Settings).get setting, setting_get _ setting, rfl⟩
      | some entry =>
          obtain ⟨value, hgives, hsetting⟩ := hvalid setting entry hstanding
          exact ⟨value, hsetting, hgives⟩
    choose values hsetting htakes using hvalue
    obtain ⟨settings, hget⟩ := exists_get_eq hsetting
    refine ⟨settings, (h.eq_ok_iff environment settings).mpr fun setting => ?_⟩
    rw [hget]
    exact htakes setting

/-! ### Variables that name no setting -/

/-- The variables that name settings. -/
def naming (environment : List (String × String)) : List (String × String) :=
  environment.filter fun (name, _) => ∃ setting ∈ Setting.all, Names name setting

theorem environmentValue_naming (environment : List (String × String)) (setting : Setting) :
    environmentValue (naming environment) setting = environmentValue environment setting := by
  have hall : setting ∈ Setting.all := by cases setting <;> decide
  rw [environmentValue, environmentValue, naming, ← List.filter_reverse, List.find?_filter]
  congr 2
  funext ⟨name, text⟩
  by_cases hnames : Names name setting
  · simpa [hnames] using ⟨setting, hall, hnames⟩
  · simp [hnames]

theorem Source.eq_naming {file : Setting → Option Entry}
    {load : List (String × String) → Except LoadError Settings} (h : Source file load)
    {environment : List (String × String)} (hplain : Environment.Plain environment) :
    load (naming environment) = load environment := by
  obtain ⟨base, origin, members, hload, hbase, hsorted, _⟩ := h.exists_base
  have hnaming : Environment.Plain (naming environment) := hplain.of_sublist List.filter_sublist
  rw [hload, hload]
  refine extract_congr hbase hsorted fun setting => ?_
  rw [lookup?_given_key hnaming, lookup?_given_key hplain, environmentValue_naming]

/-- **Each setting comes from the layers on its own.** A load gives settings exactly if each of
them is what the value chosen for it gives, or its default where none is chosen, and it gives
some exactly if every chosen value is valid. So, whatever else differs, two loads that choose the
same value for a setting agree in it; two that choose the same for all settings give the same, if
anything; and variables that name no setting have no part in the outcome. -/
theorem layered {file : Setting → Option Entry}
    {load : List (String × String) → Except LoadError Settings} (hload : Source file load)
    {environment : List (String × String)} (h : Environment.Plain environment) :
    (∀ settings, load environment = .ok settings
      ↔ ∀ setting, Takes {} setting (chosen environment file setting) (settings.get setting)) ∧
    ((∃ settings, load environment = .ok settings)
      ↔ ∀ setting entry, chosen environment file setting = some entry →
          ∃ value, entry.Gives value ∧ value.setting = setting) ∧
    (∀ file' load' environment', Source file' load' → Environment.Plain environment' →
      (∀ settings settings' setting, load environment = .ok settings →
        load' environment' = .ok settings' →
        chosen environment file setting = chosen environment' file' setting →
        settings.get setting = settings'.get setting) ∧
      ((∀ setting, chosen environment file setting = chosen environment' file' setting) →
        ∀ settings, load environment = .ok settings ↔ load' environment' = .ok settings)) ∧
    load (naming environment) = load environment := by
  simp only [← standing_eq_chosen h]
  refine ⟨hload.eq_ok_iff environment, hload.exists_ok_iff environment, ?_, hload.eq_naming h⟩
  intro file' load' environment' hload' h'
  simp only [← standing_eq_chosen h']
  constructor
  · intro settings settings' setting hok hok' hsame
    have htakes := (hload.eq_ok_iff environment settings).mp hok setting
    have htakes' := (hload'.eq_ok_iff environment' settings').mp hok' setting
    rw [hsame] at htakes
    exact takes_unique htakes htakes' (by rw [setting_get, setting_get])
  · intro hsame settings
    rw [hload.eq_ok_iff, hload'.eq_ok_iff]
    simp only [hsame]

/-- The text of a file whose address is none, with a key that names no setting. -/
def sampleText : String := "[grpc]\nlisten_addr = \"nowhere\"\nnode_id = \"n1\"\nport = 5\n"

/-- The directory that holds the file. -/
def sampleFiles : Files := { files := [(["node.toml"], sampleText.toUTF8.toList)] }

/-- An environment with an address, with a role in other letters, and with variables that name no
setting. -/
def sampleEnvironment : List (String × String) :=
  [("NODE_READ_LISTEN_ADDR", "127.0.0.1:7000"), ("node_read_Node_Type", "light"),
   ("NODE_READ_ENDPOINT", "http://localhost:50051"), ("A__B.C", "\x7b\x7d")]

/-- The address of the environment stands in place of the one in the file, which is none. -/
theorem layered_sample :
    Environment.Plain sampleEnvironment ∧
    (∃ file, Source file fun environment =>
      fromPath sampleFiles environment "node.toml" "node.toml") ∧
    fromPath sampleFiles sampleEnvironment "node.toml" "node.toml"
      = .ok { listenAddress := .v4 #v[127, 0, 0, 1] 7000, nodeId := "n1", role := .light } := by
  have hparse : Toml.parse sampleText
      = some [("grpc", .table [("listen_addr", .string "nowhere"), ("node_id", .string "n1"),
          ("port", .integer 5)])] := by
    simp only [Toml.parse, sampleText, String.reduceToList]
    rfl
  have hread : sampleFiles.read "node.toml" = .ok sampleText.toUTF8.toList := rfl
  have htext : String.fromUTF8? ⟨sampleText.toUTF8.toList.toArray⟩ = some sampleText := by
    decide +kernel
  have hsource : Source _ fun environment =>
      fromPath sampleFiles environment "node.toml" "node.toml" :=
    .file (by decide +kernel) hread htext hparse rfl
  have hplain : Environment.Plain sampleEnvironment := by decide +kernel
  refine ⟨hplain, ⟨_, hsource⟩, ((layered hsource hplain).1 _).mpr fun setting => ?_⟩
  cases setting with
  | listenAddress => exact .listenAddress rfl (by decide +kernel)
  | nodeId => exact .nodeId rfl
  | role => exact .role rfl
  | network => exact rfl
  | maxConcurrentStreams => rfl
  | requestTimeout => rfl
  | maxMessageSize => rfl
  | logLevel => rfl

end NodeView.Settings
