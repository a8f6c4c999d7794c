import NodeView.Files
import NodeView.Layer.Environment
import NodeView.Layer.OfToml
import NodeView.Settings.OfLayer
/-!
# NodeView.Settings.Load

Settings from a file or from the defaults, and in either case from the environment.

The environment is laid over the file or the defaults, and the settings are what one table of
the result gives. A file that is not there gives nothing, so that without anything in the
environment the table is missing.
-/

namespace NodeView.Settings

/-- Why settings are not loaded. -/
inductive LoadError where
  /-- The path names no file with an extension. -/
  | noExtension
  /-- The path has an extension that is not read. -/
  | unsupported (extension : String)
  /-- The file is not text. -/
  | notText (path : String)
  /-- The file is not a TOML document. -/
  | syntaxError (path : String)
  /-- Nothing gives the table of settings. -/
  | missing
  /-- The table does not give settings. -/
  | invalid (fault : LayerFault)

/-- The wording of an error. The position of a syntax error is not told. -/
def LoadError.message : LoadError → String
  | .noExtension => "Config file must have a .toml extension"
  | .unsupported extension =>
    "Unsupported config file format: " ++ extension ++ ". Use .toml"
  | .notText path =>
    "stream did not contain valid UTF-8\n in " ++ (Origin.file path).describe
  | .syntaxError path => "TOML parse error in " ++ (Origin.file path).describe
  | .missing => "missing field `" ++ Environment.tableKey ++ "`"
  | .invalid fault => fault.message Environment.tableKey

/-- The layer that the bytes of a file give. -/
def fileLayer (path : String) (bytes : List UInt8) : Except LoadError Layer :=
  match String.fromUTF8? ⟨bytes.toArray⟩ with
  | none => .error (.notText path)
  | some text =>
    match Toml.parse text with
    | none => .error (.syntaxError path)
    | some members => .ok (Layer.ofToml (.file path) members)

/-- An entry with a text, as the defaults have it. -/
def defaultText (key value : String) : String × Entry :=
  (key, .scalar .defaults (.text value))

/-- An entry with a number, as the defaults have it. -/
def defaultNumber (key : String) (value : Nat) : String × Entry :=
  (key, .scalar .defaults (.unsigned value))

/-- The layer that settings give. -/
def layer (settings : Settings) : Layer :=
  [(Environment.tableKey, .table .defaults (Keyed.ofList
    [defaultText Setting.listenAddress.key settings.listenAddress.text,
     defaultText Setting.nodeId.key settings.nodeId,
     defaultText Setting.role.key settings.role.name,
     defaultText Setting.network.key settings.network.name,
     defaultNumber Setting.maxConcurrentStreams.key settings.maxConcurrentStreams.toNat,
     defaultNumber Setting.requestTimeout.key settings.requestTimeout.toNat,
     defaultNumber Setting.maxMessageSize.key settings.maxMessageSize.toNat,
     defaultText Setting.logLevel.key settings.logLevel]))]

/-- The settings that a layer gives with an environment laid over it. -/
def extract (environment : List (String × String)) (base : Layer) : Except LoadError Settings :=
  match Keyed.lookup? Environment.tableKey ((Environment.layer environment).overlay base) with
  | none => .error .missing
  | some entry => (ofEntry entry).mapError .invalid

/-- The settings that the environment and the defaults give. -/
def fromEnvironment (environment : List (String × String)) : Except LoadError Settings :=
  extract environment (layer {})

/-- The settings that the file at a path and the environment give; messages show the path as
`shown`. -/
def fromPath (files : Files) (environment : List (String × String)) (path shown : String) :
    Except LoadError Settings :=
  match Path.extension? path with
  | none => .error .noExtension
  | some extension =>
    if extension ≠ "toml" then .error (.unsupported extension)
    else
      match files.read path with
      | .error _ => extract environment []
      | .ok bytes =>
        match fileLayer shown bytes with
        | .error e => .error e
        | .ok base => extract environment base

end NodeView.Settings
