import NodeView.CommandLine.Run
/-!
# NodeView.Main

The client as a program. It reads the one file that a command may name and the one variable that
may name an endpoint, and writes what the command shows. It opens no connections: commands that
ask a node find none.
-/

namespace NodeView

/-- What the system says about a file that it does not read. Its number for a file where a
directory should be comes with either sign. -/
def fileFault : IO.Error → FileFault
  | .inappropriateType _ code _ =>
    if code = 20 ∨ code = 0 - 20 then .notDirectory else .isDirectory
  | .invalidArgument _ code _ | .resourceExhausted _ code _ =>
    if code = 36 ∨ code = 0 - 36 then .nameTooLong else .notFound
  | _ => .notFound

/-- The file that the arguments name, if they name one. -/
def namedFile? (arguments : List String) : Option String :=
  match CommandLine.parse none arguments with
  | .ok ⟨_, .decode _ (.file path)⟩ => some path
  | _ => none

/-- Reads a file. -/
def readFile (path : String) : IO (Except FileFault (List UInt8)) := do
  try
    let bytes ← IO.FS.readBinFile path
    return .ok bytes.data.toList
  catch e => return .error (fileFault e)

end NodeView

open NodeView in
/-- Runs the client. -/
def main (arguments : List String) : IO UInt32 := do
  let content ←
    match namedFile? arguments with
    | some path => readFile path
    | none => pure (.error .notFound)
  let endpoint ← IO.getEnv "NODE_READ_ENDPOINT"
  let outcome := CommandLine.run ⟨fun _ => content, .nowhere, endpoint⟩ arguments
  (← IO.getStdout).putStr outcome.stdout
  (← IO.getStderr).putStr outcome.stderr
  return UInt32.ofNat outcome.exit
