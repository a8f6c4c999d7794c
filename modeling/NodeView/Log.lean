import NodeView.Settings.Basic
/-!
# NodeView.Log

What a server logs.

A record has a level, a message and pairs of keys and values, of which the one that was given
last is written first. A level has a long and a short name, and any beginning of either names
it.
-/

namespace NodeView

/-- How grave a record is, the gravest first. -/
inductive LogLevel where
  | critical
  | error
  | warning
  | info
  | debug
  | trace
  deriving DecidableEq, Repr

namespace LogLevel

/-- Every level. -/
def all : List LogLevel := [.critical, .error, .warning, .info, .debug, .trace]

/-- The long name of a level. -/
def longName : LogLevel → String
  | .critical => "CRITICAL"
  | .error => "ERROR"
  | .warning => "WARNING"
  | .info => "INFO"
  | .debug => "DEBUG"
  | .trace => "TRACE"

/-- The short name of a level, which records are written with. -/
def shortName : LogLevel → String
  | .critical => "CRIT"
  | .error => "ERRO"
  | .warning => "WARN"
  | .info => "INFO"
  | .debug => "DEBG"
  | .trace => "TRCE"

/-- How far a level is from the gravest. -/
def rank : LogLevel → Nat
  | .critical => 0
  | .error => 1
  | .warning => 2
  | .info => 3
  | .debug => 4
  | .trace => 5

/-- The level that a text names: a beginning of one of its names, in letters of either case. Long
names count before short ones. -/
def ofText? (text : String) : Option LogLevel :=
  let letters := text.toList.map Char.toUpper
  if letters = [] then none
  else
    (all.find? fun level => letters.isPrefixOf level.longName.toList).or
      (all.find? fun level => letters.isPrefixOf level.shortName.toList)

/-- The least grave level that is logged: as the environment says, or else as the settings say,
or else `info`. -/
def choose (override : Option String) (settings : Settings) : LogLevel :=
  ((override.bind ofText?).or (ofText? settings.logLevel)).getD .info

@[simp] theorem ofText?_longName (level : LogLevel) : ofText? level.longName = some level := by
  cases level <;> decide

@[simp] theorem ofText?_shortName (level : LogLevel) : ofText? level.shortName = some level := by
  cases level <;> decide

end LogLevel

/-- A record in a log. -/
structure LogRecord where
  level : LogLevel
  message : String
  /-- Keys with values, in the order in which they were given. -/
  pairs : List (String × String) := []
  deriving DecidableEq, Repr

namespace LogRecord

/-- What every record of a server carries besides its own pairs. -/
def service : String × String := ("service", "node-read")

/-- A record as a line, without the time. -/
def line (record : LogRecord) : String :=
  let pairs := (record.pairs.reverse ++ [service]).map fun (key, value) => key ++ ": " ++ value
  String.intercalate ", " ((record.level.shortName ++ " " ++ record.message) :: pairs)

/-- The records that are logged where `level` is the least grave level. -/
def visible (level : LogLevel) (records : List LogRecord) : List LogRecord :=
  records.filter fun record => record.level.rank ≤ level.rank

end LogRecord

/-- The records of a server that is started and then asked to stop. -/
def lifeRecords (settings : Settings) (address : String) (attached : Bool) : List LogRecord :=
  [⟨.info, "Starting gRPC server",
      [("address", address), ("node_id", settings.nodeId), ("node_type", settings.role.name),
       ("network", settings.network.name),
       ("mempool_attached", if attached then "true" else "false")]⟩,
   ⟨.info, "Shutdown requested", []⟩,
   ⟨.info, "gRPC server stopped", []⟩]

end NodeView
