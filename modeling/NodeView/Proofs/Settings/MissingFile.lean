import NodeView.CommandLine.Server
import NodeView.Proofs.Settings.BlankFile
/-!
# NodeView.Proofs.Settings.MissingFile

Paths that lead to no file.

Nothing asks whether the file is there. Where it is not, the base is empty, so the load comes down
to whether the environment makes the table (`fromPath_of_missing`): if no variable names a place
below it, the table is missing, and otherwise the load is as good as one without a path
(`fromPath_missing`). The server passes either outcome on.
-/

namespace NodeView.Settings

open CommandLine (Report serverSettings)

section

variable {files : Files} {path : String} (hextension : Path.extension? path = some "toml")
  (hmissing : ∀ bytes, files.read path ≠ .ok bytes)

include hextension hmissing

/-- A file that is not there is an empty base. -/
theorem fromPath_of_missing (environment : List (String × String)) (shown : String) :
    fromPath files environment path shown = extract environment [] := by
  cases hread : files.read path with
  | ok bytes => exact absurd hread (hmissing bytes)
  | error fault => simp only [fromPath, hextension, hread, ne_eq, not_true_eq_false, if_false]

/-- **A missing file is an error only where the environment makes no table.** The path has the
extension of a file of settings, and no file is found at it. If no variable names a place below the
table, the table is missing, and the server reports that it did not load the file. If some variable
does, path and server give the settings that the environment and the defaults give, or none if
these give none. -/
theorem fromPath_missing (environment : List (String × String)) (shown : String) :
    ((∀ named ∈ environment, Environment.place? named.1 = none) →
      fromPath files environment path shown = .error .missing ∧
      ∀ arguments, serverSettings files environment (path :: arguments)
        = .error ⟨"Failed to load config from " ++ path, ["missing field `grpc`"]⟩) ∧
    ((∃ named ∈ environment, Environment.place? named.1 ≠ none) →
      ∀ settings,
        (fromPath files environment path shown = .ok settings
          ↔ fromEnvironment environment = .ok settings) ∧
        ∀ arguments, serverSettings files environment (path :: arguments) = .ok settings
          ↔ fromEnvironment environment = .ok settings) := by
  have hload := fromPath_of_missing hextension hmissing environment
  constructor
  · intro hnone
    have herror : extract environment [] = .error .missing :=
      extract_of_given_nil rfl (Environment.given_eq_nil_iff.mpr hnone)
    refine ⟨(hload shown).trans herror, fun arguments => ?_⟩
    rw [serverSettings, hload, herror]
    rfl
  · intro hnamed settings
    have hok : extract environment [] = .ok settings ↔ fromEnvironment environment = .ok settings :=
      (extract_of_given_ne_nil rfl (given_ne_nil_iff.mpr hnamed) settings).trans
        (Source.defaults.eq_ok_iff environment settings).symm
    refine ⟨by rw [hload, hok], fun arguments => ?_⟩
    rw [serverSettings, mapError_eq_ok, hload, hok]

end

/-- In an empty directory, without a variable and with one that only the client asks for. -/
theorem fromPath_missing_endpoint :
    Path.extension? "node.toml" = some "toml" ∧
    (∀ bytes, ({} : Files).read "node.toml" ≠ .ok bytes) ∧
    fromPath {} [] "node.toml" "node.toml" = .error .missing ∧
    fromPath {} [("NODE_READ_ENDPOINT", "http://localhost:50051")] "node.toml" "node.toml"
      = .ok {} := by
  have hextension : Path.extension? "node.toml" = some "toml" := by decide +kernel
  have hmissing : ∀ bytes, ({} : Files).read "node.toml" ≠ .ok bytes := by
    intro bytes hread
    cases hread
  have hdefaults : fromEnvironment [("NODE_READ_ENDPOINT", "http://localhost:50051")] = .ok {} :=
    (Source.defaults.eq_ok_iff _ _).mpr fun setting => by cases setting <;> rfl
  have hnamed : ∃ named ∈ [("NODE_READ_ENDPOINT", "http://localhost:50051")],
      Environment.place? named.1 ≠ none :=
    ⟨_, List.mem_singleton.mpr rfl, by decide +kernel⟩
  refine ⟨hextension, hmissing, ?_, ?_⟩
  · exact ((fromPath_missing hextension hmissing [] "node.toml").1
      fun _ hmem => absurd hmem List.not_mem_nil).1
  · exact (((fromPath_missing hextension hmissing _ "node.toml").2 hnamed {}).1).mpr hdefaults

/-- A server is started with a path at which there is nothing, and one variable sets how the node
calls itself: the settings load. -/
theorem serverSettings_missing_named :
    Path.extension? "missing.toml" = some "toml" ∧
    ({} : Files).read "missing.toml" = .error .notFound ∧
    fromPath {} [("NODE_READ_NODE_ID", "only-env")] "missing.toml" "missing.toml"
      = .ok { nodeId := "only-env" } ∧
    serverSettings {} [("NODE_READ_NODE_ID", "only-env")] ["missing.toml"]
      = .ok { nodeId := "only-env" } := by
  have hextension : Path.extension? "missing.toml" = some "toml" := by decide +kernel
  have hmissing : ({} : Files).read "missing.toml" = .error .notFound := rfl
  have hgiven : Environment.given [("NODE_READ_NODE_ID", "only-env")] ≠ [] :=
    given_ne_nil_iff.mpr ⟨_, List.mem_singleton.mpr rfl, by decide +kernel⟩
  have hextract : extract [("NODE_READ_NODE_ID", "only-env")] [] = .ok { nodeId := "only-env" } :=
    (extract_of_given_ne_nil rfl hgiven _).mpr fun setting => by
      cases setting with
      | nodeId => exact .nodeId rfl
      | _ => rfl
  have hload (shown : String) :
      fromPath {} [("NODE_READ_NODE_ID", "only-env")] "missing.toml" shown
        = .ok { nodeId := "only-env" } :=
    (fromPath_of_missing hextension (fun bytes hread => by cases hread) _ shown).trans hextract
  exact ⟨hextension, hmissing, hload _, by rw [serverSettings, hload]; rfl⟩

end NodeView.Settings
