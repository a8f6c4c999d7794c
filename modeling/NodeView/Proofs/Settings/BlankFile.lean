import NodeView.Proofs.Settings.Layering
/-!
# NodeView.Proofs.Settings.BlankFile

Files that set nothing.

A file leaves the settings to the environment and the defaults, just as no file does, if it has
an empty table of settings, or if some variable of the environment makes the table. Where nothing
makes it, the table is missing, although the defaults alone would do (`fromPath_blank`).
-/

namespace NodeView.Settings

/-- A document sets nothing: it has no table of settings, or an empty one. -/
def SetsNothing (document : List (String × Toml)) : Prop :=
  Keyed.lookup? Environment.tableKey document = none ∨
    Keyed.lookup? Environment.tableKey document = some (.table [])

/-- Something makes the table of settings: the document has it, or some variable names a place
below it. -/
def HasTable (document : List (String × Toml)) (environment : List (String × String)) : Prop :=
  Keyed.lookup? Environment.tableKey document ≠ none ∨
    ∃ named ∈ environment, Environment.place? named.1 ≠ none

theorem given_ne_nil_iff {environment : List (String × String)} :
    Environment.given environment ≠ []
      ↔ ∃ named ∈ environment, Environment.place? named.1 ≠ none := by
  simp only [Ne, Environment.given_eq_nil_iff, not_forall, exists_prop]

/-! ### A base without the table -/

section

variable {environment : List (String × String)} {base : Layer}
  (hbase : Keyed.lookup? Environment.tableKey base = none)

include hbase

/-- Where neither the base nor the environment makes the table, it is missing. -/
theorem extract_of_given_nil (hgiven : Environment.given environment = []) :
    extract environment base = .error .missing := by
  rw [extract, Environment.layer_eq, hgiven]
  simp [Environment.layerOf, Layer.overlay, Entry.overlayLayer, hbase]

/-- A table that only the environment makes gives what the environment gives. -/
theorem extract_of_given_ne_nil (hgiven : Environment.given environment ≠ [])
    (settings : Settings) :
    extract environment base = .ok settings
      ↔ ∀ setting, Takes {} setting (standing environment (fun _ => none) setting)
          (settings.get setting) := by
  obtain ⟨member, others, hmembers⟩ := List.exists_cons_of_ne_nil hgiven
  have htable : Keyed.lookup? Environment.tableKey
      ((Environment.layer environment).overlay base)
        = some (.table .environment (Environment.given environment)) := by
    rw [Environment.layer_eq, hmembers]
    simp [Environment.layerOf, Layer.overlay, Entry.overlayLayer, hbase, Keyed.lookup?_insert]
  rw [extract, htable, mapError_eq_ok, ofTable_eq_ok_iff (Environment.sorted_given environment)]
  simp only [standing, Option.merge_none_right]

end

/-! ### Files -/

section

variable {files : Files} {path text : String} {bytes : List UInt8}
  {document : List (String × Toml)} (hextension : Path.extension? path = some "toml")
  (hread : files.read path = .ok bytes) (htext : String.fromUTF8? ⟨bytes.toArray⟩ = some text)
  (hparse : Toml.parse text = some document) (hblank : SetsNothing document)

include hextension hread htext hparse hblank

/-- Where something makes the table, a file that sets nothing is as good as no file. -/
theorem fromPath_blank_eq_ok_iff (shown : String) {environment : List (String × String)}
    (htable : HasTable document environment) (settings : Settings) :
    fromPath files environment path shown = .ok settings
      ↔ fromEnvironment environment = .ok settings := by
  rw [Source.defaults.eq_ok_iff]
  rcases hblank with hnone | hempty
  · have hgiven : Environment.given environment ≠ [] :=
      given_ne_nil_iff.mpr (htable.resolve_left fun hsome => hsome hnone)
    rw [fromPath_eq_extract hextension hread htext hparse]
    refine extract_of_given_ne_nil ?_ hgiven settings
    rw [Layer.ofToml, lookup?_entriesOfMembers, hnone, Option.map_none]
  · exact (Source.file hextension hread htext hparse hempty).eq_ok_iff environment settings

/-- **A file that sets nothing behaves like no file where something makes the table.** The file
is a TOML document with an empty table of settings or without one. If it has the table, or some
variable names a place below it, the load gives the settings that the environment and the
defaults give, or none as they do. Otherwise the table is missing, while the environment and the
defaults give the defaults. -/
theorem fromPath_blank (shown : String) (environment : List (String × String)) :
    (HasTable document environment →
      ∀ settings, fromPath files environment path shown = .ok settings
        ↔ fromEnvironment environment = .ok settings) ∧
    (¬ HasTable document environment →
      fromPath files environment path shown = .error .missing ∧
      fromEnvironment environment = .ok {}) := by
  refine ⟨fromPath_blank_eq_ok_iff hextension hread htext hparse hblank shown, fun htable => ?_⟩
  obtain ⟨hdocument, henvironment⟩ := not_or.mp htable
  have hnone : Keyed.lookup? Environment.tableKey document = none := not_not.mp hdocument
  have hgiven : Environment.given environment = [] :=
    not_not.mp (mt given_ne_nil_iff.mp henvironment)
  constructor
  · rw [fromPath_eq_extract hextension hread htext hparse]
    refine extract_of_given_nil ?_ hgiven
    rw [Layer.ofToml, lookup?_entriesOfMembers, hnone, Option.map_none]
  · refine (Source.defaults.eq_ok_iff environment {}).mpr fun setting => ?_
    rw [standing, hgiven]
    rfl

end

/-- A directory with an empty file. -/
def blankFiles : Files := { files := [(["node.toml"], [])] }

/-- A variable makes the table, so that an empty file does no harm. -/
theorem fromPath_blank_named :
    HasTable [] [("NODE_READ_NODE_ID", "n1")] ∧
    fromPath blankFiles [("NODE_READ_NODE_ID", "n1")] "node.toml" "node.toml"
      = .ok { nodeId := "n1" } := by
  have htext : String.fromUTF8? ⟨[].toArray⟩ = some "" := by decide +kernel
  have hparse : Toml.parse "" = some [] := rfl
  have htable : HasTable [] [("NODE_READ_NODE_ID", "n1")] :=
    .inr ⟨_, List.mem_singleton.mpr rfl, by decide +kernel⟩
  have hdefaults : fromEnvironment [("NODE_READ_NODE_ID", "n1")] = .ok { nodeId := "n1" } := by
    refine (Source.defaults.eq_ok_iff _ _).mpr fun setting => ?_
    cases setting with
    | nodeId => exact .nodeId rfl
    | _ => rfl
  have hread : blankFiles.read "node.toml" = .ok [] := rfl
  have hload := fromPath_blank (by decide +kernel) hread htext hparse (.inl rfl) "node.toml"
    [("NODE_READ_NODE_ID", "n1")]
  exact ⟨htable, (hload.1 htable _).mpr hdefaults⟩

/-- With an empty file and nothing in the environment the table is missing, while the
environment alone gives the defaults. -/
theorem fromPath_blank_missing :
    Path.extension? "node.toml" = some "toml" ∧ blankFiles.read "node.toml" = .ok [] ∧
    Toml.parse "" = some [] ∧
    fromPath blankFiles [] "node.toml" "node.toml" = .error .missing ∧
    fromEnvironment [] = .ok {} := by
  refine ⟨by decide +kernel, rfl, rfl, ?_, ?_⟩
  · rfl
  · exact (Source.defaults.eq_ok_iff _ _).mpr fun setting => rfl

end NodeView.Settings
