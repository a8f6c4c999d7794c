import NodeView.CommandLine.Report
import NodeView.Log
import NodeView.Settings.Load
/-!
# NodeView.CommandLine.Server

What the program of the server does with its arguments: it loads settings from the file that the
first one names, or from the environment if there is none, and fails if they do not load. In a
fault within the file the path is shown without the steps that stay.
-/

namespace NodeView.CommandLine

/-- The settings that the server starts with, or the report on why it does not. -/
def serverSettings (files : Files) (environment : List (String × String))
    (arguments : List String) : Except Report Settings :=
  match arguments with
  | path :: _ =>
    (Settings.fromPath files environment path (Path.tidy path)).mapError fun e =>
      ⟨"Failed to load config from " ++ path, [e.message]⟩
  | [] =>
    (Settings.fromEnvironment environment).mapError fun e =>
      ⟨"Failed to load config from environment", [e.message]⟩

/-- The least grave level that a server logs. -/
def serverLevel (environment : List (String × String)) (settings : Settings) : LogLevel :=
  LogLevel.choose (environment.lookup "RUST_LOG") settings

/-- The lines that a server logs that is started, is asked nothing and is stopped; `address` is
where it listens. -/
def serverLog (environment : List (String × String)) (settings : Settings) (address : String) :
    List String :=
  (LogRecord.visible (serverLevel environment settings) (lifeRecords settings address true)).map
    LogRecord.line

end NodeView.CommandLine
