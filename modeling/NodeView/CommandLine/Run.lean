import NodeView.CommandLine.Arguments
import NodeView.CommandLine.Report
import NodeView.Files
import NodeView.Text.Blank
/-!
# NodeView.CommandLine.Run

What the commands of the client do and write.

Nothing here reads a file or opens a connection: how files are read and which node answers at
an endpoint are parameters.
-/

namespace NodeView.CommandLine

/-- What a command sees of the world. -/
structure World where
  /-- Reads a file. -/
  read : String → Except FileFault (List UInt8)
  /-- Which node answers at an endpoint. -/
  reach : Reach
  /-- The endpoint that the environment gives. -/
  endpoint : Option String := none

/-! ### Reports -/

/-- The report on an error of the client. -/
def reportOf (e : ClientError) : Report := ⟨e.message, e.causes⟩

/-- The report on an error of the client in the course of something. -/
def reportIn (context : String) (e : ClientError) : Report := ⟨context, e.message :: e.causes⟩

/-! ### Commands -/

/-- The bytes that binary input holds. -/
def readInput (world : World) : BinaryInput → Except Report (List UInt8)
  | .hex text => (Hex.decode (Text.trim text)).mapError fun fault =>
    ⟨"invalid hex input", [fault.message]⟩
  | .file path => (world.read path).mapError fun fault =>
    ⟨"failed to read " ++ path, [fault.message]⟩

/-- A pending transaction on one line. -/
def summaryLine (record : TransactionRecord) : String :=
  let token :=
    match record.token with
    | some token => token.symbol
    | none => "-"
  record.id ++ "  " ++ record.senderAddress ++ " -> " ++ record.receiverAddress
    ++ "  amount=" ++ toString record.amount.toNat ++ " token=" ++ token
    ++ " nonce=" ++ toString record.nonce.toNat
    ++ " approvals=" ++ toString record.approvingValidators.length ++ "/"
    ++ toString record.validators.size

/-- What is pending, on one line each. -/
def summary (records : List TransactionRecord) : List String :=
  ("pending: " ++ toString records.length) :: records.map summaryLine

/-- The lines that a command writes. -/
def execute (world : World) (invocation : Invocation) : Except Report (List String) :=
  match invocation.command with
  | .nodeType => do
    let client ← (Client.connect world.reach invocation.endpoint).mapError reportOf
    let response ← client.nodeType.mapError reportOf
    return ["id:        " ++ response.id, "node_type: " ++ response.result]
  | .mempool short => do
    let client ← (Client.connect world.reach invocation.endpoint).mapError reportOf
    let records ← client.mempool.mapError reportOf
    if short then return summary records
    return [(Message.mempoolResponse ⟨records⟩).toJson.pretty]
  | .decode type input => do
    let bytes ← readInput world input
    let json ← (type.binaryToJson bytes).mapError
      (reportIn ("failed to decode " ++ type.fullName))
    return [json.pretty]
  | .encode type json policy => do
    let bytes ← (type.jsonToBinary policy json).mapError
      (reportIn ("failed to encode " ++ type.fullName))
    return [Hex.encode bytes]

/-! ### The program -/

/-- The name and version of the program. -/
def versionLine : String := "node-read 0.1.0"

/-- How the program is used. -/
def usageLines : List String :=
  ["Node read service CLI", "",
   "Usage: node-read [--endpoint <ENDPOINT>] <COMMAND>", "",
   "Commands:",
   "  node-type                                   Show the node's id and role",
   "  mempool [--summary]                         List pending transactions",
   "  decode <MESSAGE> <--hex <HEX>|--file <FILE>>  Decode a binary message to JSON",
   "  encode <MESSAGE> <JSON> [--strict]          Encode a JSON message to hex binary"]

/-- What running the program shows. -/
def run (world : World) (arguments : List String) : Outcome :=
  match parse world.endpoint arguments with
  | .ok invocation => .ofResult (execute world invocation)
  | .error .version => .success [versionLine]
  | .error .help => .success usageLines
  | .error .usage => ⟨2, "", String.join (usageLines.map (· ++ "\n"))⟩

end NodeView.CommandLine
