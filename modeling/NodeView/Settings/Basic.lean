import NodeView.Json.Printer
import NodeView.Settings.SocketAddress
/-!
# NodeView.Settings.Basic

What can be set about a server, and how one setting takes a value.

There are eight settings, each with a key, a default and the kind of value it takes. A source
of settings (a JSON text, a JSON value, a file, the environment) finds values under keys; what
a value does to its setting is decided here, and how a value that does not fit is reported is
up to the source.
-/

namespace NodeView

/-! ### Names -/

/-- The network a node belongs to. -/
inductive Network where
  | mainnet
  | testnet
  | local
  deriving DecidableEq, Repr

namespace Network

/-- Every network. -/
def all : List Network := [.mainnet, .testnet, .local]

/-- The name of a network. -/
def name : Network → String
  | .mainnet => "mainnet"
  | .testnet => "testnet"
  | .local => "local"

/-- The network where none is set. -/
def default : Network := .local

/-- The network of a name. -/
def ofName? (name : String) : Option Network := all.find? (·.name = name)

@[simp] theorem ofName?_name (network : Network) : ofName? network.name = some network := by
  cases network <;> decide

end Network

/-- The role a node plays in its network. -/
inductive NodeRole where
  /-- Keeps the full state and serves reads. -/
  | full
  /-- Follows headers only. -/
  | light
  /-- Keeps the full history. -/
  | archive
  /-- Produces blocks. -/
  | miner
  /-- Votes on the validity of transactions. -/
  | validator
  /-- Does work that validators delegate. -/
  | farmer
  /-- Is where peers are first asked for. -/
  | bootstrap
  deriving DecidableEq, Repr

namespace NodeRole

/-- Every role. -/
def all : List NodeRole :=
  [.full, .light, .archive, .miner, .validator, .farmer, .bootstrap]

/-- The name of a role. -/
def name : NodeRole → String
  | .full => "full"
  | .light => "light"
  | .archive => "archive"
  | .miner => "miner"
  | .validator => "validator"
  | .farmer => "farmer"
  | .bootstrap => "bootstrap"

/-- The role where none is set. -/
def default : NodeRole := .full

/-- The role of a name. -/
def ofName? (name : String) : Option NodeRole := all.find? (·.name = name)

@[simp] theorem ofName?_name (role : NodeRole) : ofName? role.name = some role := by
  cases role <;> decide

end NodeRole

/-- How a message lists the names to choose from. -/
def listNames (names : List String) : String :=
  "one of " ++ String.intercalate ", " (names.map fun name => "`" ++ name ++ "`")

/-! ### Settings -/

/-- Where a server listens unless it is told otherwise: on every address of its host. -/
def Settings.defaultAddress : SocketAddress := .v4 #v[0, 0, 0, 0] 50051

/-- How a server is set up. -/
structure Settings where
  /-- Where it listens. -/
  listenAddress : SocketAddress := Settings.defaultAddress
  /-- How the node calls itself. -/
  nodeId : String := "node-0"
  /-- The role the node plays. -/
  role : NodeRole := NodeRole.default
  /-- The network the node belongs to. -/
  network : Network := Network.default
  /-- How many requests one connection may have open. -/
  maxConcurrentStreams : UInt32 := 100
  /-- How many seconds a request may take. -/
  requestTimeout : UInt64 := 30
  /-- The size of the largest message taken or sent, in bytes. -/
  maxMessageSize : UInt64 := 4194304
  /-- The name of the least level that is logged. -/
  logLevel : String := "info"
  deriving DecidableEq

/-- One of the settings. -/
inductive Setting where
  | listenAddress
  | nodeId
  | role
  | network
  | maxConcurrentStreams
  | requestTimeout
  | maxMessageSize
  | logLevel
  deriving DecidableEq, Repr

/-- What a setting takes. -/
inductive Domain where
  /-- Any text. -/
  | text
  /-- The text of a socket address. -/
  | address
  /-- One of some names; the choice goes by this title. -/
  | name (title : String) (names : List String)
  /-- A whole number from 0 to `max`, of the type that goes by this name. -/
  | number (type : String) (max : Nat)

/-- One setting with the value it is given. -/
inductive Assignment where
  | listenAddress (value : SocketAddress)
  | nodeId (value : String)
  | role (value : NodeRole)
  | network (value : Network)
  | maxConcurrentStreams (value : UInt32)
  | requestTimeout (value : UInt64)
  | maxMessageSize (value : UInt64)
  | logLevel (value : String)
  deriving DecidableEq

/-- Why a value does not fit its setting. -/
inductive Mismatch where
  /-- The value is of the wrong kind. -/
  | kind
  /-- The number is out of range. -/
  | range
  /-- The name is none of these. -/
  | name (found : String) (names : List String)
  /-- The text is no socket address. -/
  | address
  deriving DecidableEq, Repr

/-- The wording for a text that is no socket address. -/
def addressMismatch : String := "invalid socket address syntax"

namespace Setting

/-- Every setting, in the order of declaration. -/
def all : List Setting :=
  [.listenAddress, .nodeId, .role, .network, .maxConcurrentStreams, .requestTimeout,
   .maxMessageSize, .logLevel]

/-- The key of a setting. -/
def key : Setting → String
  | .listenAddress => "listen_addr"
  | .nodeId => "node_id"
  | .role => "node_type"
  | .network => "network"
  | .maxConcurrentStreams => "max_concurrent_streams"
  | .requestTimeout => "request_timeout_secs"
  | .maxMessageSize => "max_message_size"
  | .logLevel => "log_level"

/-- The setting of a key. -/
def ofKey? (key : String) : Option Setting := all.find? (·.key = key)

@[simp] theorem ofKey?_key (setting : Setting) : ofKey? setting.key = some setting := by
  cases setting <;> decide

/-- What a setting takes. -/
def domain : Setting → Domain
  | .listenAddress => .address
  | .nodeId => .text
  | .role => .name "NodeType" (NodeRole.all.map NodeRole.name)
  | .network => .name "Network" (Network.all.map Network.name)
  | .maxConcurrentStreams => .number "u32" (2 ^ 32 - 1)
  | .requestTimeout => .number "u64" (2 ^ 64 - 1)
  | .maxMessageSize => .number "usize" (2 ^ 64 - 1)
  | .logLevel => .text

/-- Gives a setting a text. -/
def ofString (setting : Setting) (s : String) : Except Mismatch Assignment :=
  match setting with
  | .listenAddress =>
    match SocketAddress.ofText? s with
    | some value => .ok (.listenAddress value)
    | none => .error .address
  | .nodeId => .ok (.nodeId s)
  | .role =>
    match NodeRole.ofName? s with
    | some value => .ok (.role value)
    | none => .error (.name s (NodeRole.all.map NodeRole.name))
  | .network =>
    match Network.ofName? s with
    | some value => .ok (.network value)
    | none => .error (.name s (Network.all.map Network.name))
  | .logLevel => .ok (.logLevel s)
  | .maxConcurrentStreams | .requestTimeout | .maxMessageSize => .error .kind

/-- Gives a setting a whole number. -/
def ofInteger (setting : Setting) (n : Int) : Except Mismatch Assignment :=
  match setting with
  | .maxConcurrentStreams =>
    if 0 ≤ n ∧ n < 2 ^ 32 then .ok (.maxConcurrentStreams (UInt32.ofNat n.toNat))
    else .error .range
  | .requestTimeout =>
    if 0 ≤ n ∧ n < 2 ^ 64 then .ok (.requestTimeout (UInt64.ofNat n.toNat)) else .error .range
  | .maxMessageSize =>
    if 0 ≤ n ∧ n < 2 ^ 64 then .ok (.maxMessageSize (UInt64.ofNat n.toNat)) else .error .range
  | _ => .error .kind

end Setting

namespace Settings

/-- What a message says was expected where settings should stand. -/
def expectedRoot : String := "struct RpcConfig"

/-- The settings after one of them was given a value. -/
def assign (settings : Settings) : Assignment → Settings
  | .listenAddress value => { settings with listenAddress := value }
  | .nodeId value => { settings with nodeId := value }
  | .role value => { settings with role := value }
  | .network value => { settings with network := value }
  | .maxConcurrentStreams value => { settings with maxConcurrentStreams := value }
  | .requestTimeout value => { settings with requestTimeout := value }
  | .maxMessageSize value => { settings with maxMessageSize := value }
  | .logLevel value => { settings with logLevel := value }

/-- The defaults with some settings given values. -/
def ofAssignments (assignments : List Assignment) : Settings := assignments.foldl assign {}

/-- The settings as a document, in the order of declaration. -/
def document (settings : Settings) : Json :=
  .object
    [(Setting.listenAddress.key, .string settings.listenAddress.text),
     (Setting.nodeId.key, .string settings.nodeId),
     (Setting.role.key, .string settings.role.name),
     (Setting.network.key, .string settings.network.name),
     (Setting.maxConcurrentStreams.key, .integer settings.maxConcurrentStreams.toNat),
     (Setting.requestTimeout.key, .integer settings.requestTimeout.toNat),
     (Setting.maxMessageSize.key, .integer settings.maxMessageSize.toNat),
     (Setting.logLevel.key, .string settings.logLevel)]

/-- The settings as a JSON text. -/
def toJsonText (settings : Settings) : String := settings.document.compact

end Settings

end NodeView
