import NodeView.Message.Kind
/-!
# NodeView.CommandLine.Arguments

What the arguments of the client's command line ask for.

* Options stand before or behind the name of the command; the endpoint may be given in both
  places, and then the one behind the name counts.
* A value is the next argument, or is joined to its option. An argument that starts with a dash
  and goes on is an option, never a value; behind `--` there are operands only.
* Each option is given at most once in each place.
-/

namespace NodeView.CommandLine

/-! ### Options -/

/-- An option. -/
inductive Flag where
  | endpoint
  | summary
  | hex
  | file
  | strict
  | help
  | version
  deriving DecidableEq, Repr

namespace Flag

/-- The long name of an option. -/
def long : Flag → String
  | .endpoint => "endpoint"
  | .summary => "summary"
  | .hex => "hex"
  | .file => "file"
  | .strict => "strict"
  | .help => "help"
  | .version => "version"

/-- The letter of an option, if it has one. -/
def letter? : Flag → Option Char
  | .endpoint => some 'e'
  | .help => some 'h'
  | .version => some 'V'
  | _ => none

/-- Whether an option has a value. -/
def takesValue : Flag → Bool
  | .endpoint | .hex | .file => true
  | _ => false

/-- Whether an option takes a value. The name of a file is not empty. -/
def accepts (flag : Flag) (value : String) : Bool := flag ≠ .file || value ≠ ""

end Flag

/-- The name of a command. -/
inductive Name where
  | nodeType
  | mempool
  | decode
  | encode
  deriving DecidableEq, Repr

namespace Name

/-- Every command. -/
def all : List Name := [.nodeType, .mempool, .decode, .encode]

/-- The text of a name. -/
def text : Name → String
  | .nodeType => "node-type"
  | .mempool => "mempool"
  | .decode => "decode"
  | .encode => "encode"

/-- The command of a name. -/
def ofText? (text : String) : Option Name := all.find? (·.text = text)

/-- The options of a command. -/
def flags : Name → List Flag
  | .nodeType => [.endpoint, .help]
  | .mempool => [.endpoint, .help, .summary]
  | .decode => [.endpoint, .help, .hex, .file]
  | .encode => [.endpoint, .help, .strict]

/-- Whether a command takes an operand at a position. -/
def acceptsOperand (name : Name) (position : Nat) (operand : String) : Bool :=
  match name, position with
  | .decode, 0 | .encode, 0 => (MessageType.ofKindName? operand).isSome
  | .encode, 1 => true
  | _, _ => false

end Name

/-- The options in front of the name of a command. -/
def leadingFlags : List Flag := [.endpoint, .help, .version]

/-! ### Arguments -/

/-- What an argument is by its looks. -/
inductive Argument where
  /-- An operand, or a value of the option before it. -/
  | plain (text : String)
  /-- An option by its long name, perhaps with a value. -/
  | long (name : String) (value : Option String)
  /-- An option by its letter, with what is joined to it. -/
  | short (letter : Char) (joined : List Char)
  /-- The mark behind which there are operands only. -/
  | operandsOnly
  deriving DecidableEq, Repr

/-- What an argument is by its looks. -/
def Argument.ofString (text : String) : Argument :=
  match text.toList with
  | ['-', '-'] => .operandsOnly
  | '-' :: '-' :: rest =>
    let name := rest.takeWhile (· ≠ '=')
    match rest.drop name.length with
    | _ :: value => .long (String.ofList name) (some (String.ofList value))
    | [] => .long (String.ofList name) none
  | '-' :: letter :: joined => .short letter joined
  | _ => .plain text

/-- Why arguments ask for no command. -/
inductive Stop where
  /-- They are wrong. -/
  | usage
  /-- They ask for help. -/
  | help
  /-- They ask for the version. -/
  | version
  deriving DecidableEq, Repr

/-- The options and operands that were given. -/
structure Given where
  flags : List (Flag × String) := []
  operands : List String := []
  deriving DecidableEq, Repr

namespace Given

/-- The value of an option, if it was given. -/
def value? (given : Given) (flag : Flag) : Option String := given.flags.lookup flag

/-- Whether an option was given. -/
def has (given : Given) (flag : Flag) : Bool := (given.value? flag).isSome

/-- Takes an option with its value. -/
def give (given : Given) (flag : Flag) (value : String) : Except Stop Given :=
  match flag with
  | .help => .error .help
  | .version => .error .version
  | _ =>
    if given.has flag ∨ ¬ flag.accepts value then .error .usage
    else .ok { given with flags := (flag, value) :: given.flags }

/-- Takes an operand. -/
def operand (given : Given) (accepts : Nat → String → Bool) (text : String) :
    Except Stop Given :=
  if accepts given.operands.length text then
    .ok { given with operands := given.operands ++ [text] }
  else .error .usage

end Given

/-- The option that an argument names, with the value that is joined to it. -/
def flagOf (known : List Flag) : Argument → Except Stop (Flag × Option String)
  | .long name value =>
    match known.find? (·.long = name) with
    | none => .error .usage
    | some flag =>
      if ¬ flag.takesValue ∧ value.isSome then .error .usage else .ok (flag, value)
  | .short letter joined =>
    match known.find? (·.letter? = some letter) with
    | none => .error .usage
    | some flag =>
      -- Letters behind a letter without a value would be options, but the first one decides.
      let value :=
        match joined with
        | [] => none
        | '=' :: value => some (String.ofList value)
        | _ => some (String.ofList joined)
      .ok (flag, if flag.takesValue then value else none)
  | _ => .error .usage

/-- Takes the options and operands of a command. Where `accepts` is missing the first operand
ends the reading. Yields what was given and what was not read. -/
def readArguments (known : List Flag) (accepts : Option (Nat → String → Bool)) (given : Given) :
    List String → Except Stop (Given × List String)
  | [] => .ok (given, [])
  | argument :: arguments =>
    match Argument.ofString argument with
    | .plain text =>
      match accepts with
      | none => .ok (given, text :: arguments)
      | some accepts => do
        readArguments known (some accepts) (← given.operand accepts text) arguments
    | .operandsOnly =>
      match accepts with
      | none => .error .usage
      | some accepts => do
        return (← arguments.foldlM (fun given text => given.operand accepts text) given, [])
    | named => do
      let (flag, value) ← flagOf known named
      match value, arguments with
      | some value, arguments => readArguments known accepts (← given.give flag value) arguments
      | none, [] =>
        if flag.takesValue then throw .usage
        return (← given.give flag "", [])
      | none, next :: rest =>
        if flag.takesValue then
          match Argument.ofString next with
          | .plain value => readArguments known accepts (← given.give flag value) rest
          | _ => throw .usage
        else readArguments known accepts (← given.give flag "") (next :: rest)
termination_by arguments => arguments.length

/-! ### Commands -/

/-- Where binary input comes from. -/
inductive BinaryInput where
  | hex (text : String)
  | file (path : String)
  deriving DecidableEq, Repr

/-- A command. -/
inductive Command where
  /-- Tells who a node is. -/
  | nodeType
  /-- Tells what is pending in a node. -/
  | mempool (summary : Bool)
  /-- Turns the binary form of a message into the JSON form. -/
  | decode (type : MessageType) (input : BinaryInput)
  /-- Turns the JSON form of a message into the binary form. -/
  | encode (type : MessageType) (json : String) (policy : KeyPolicy)
  deriving DecidableEq

/-- A command with the endpoint it works on. -/
structure Invocation where
  endpoint : String
  command : Command
  deriving DecidableEq

/-- The command that options and operands make. -/
def commandOf (name : Name) (given : Given) : Except Stop Command :=
  match name, given.operands with
  | .nodeType, [] => .ok .nodeType
  | .mempool, [] => .ok (.mempool (given.has .summary))
  | .decode, [kind] =>
    match MessageType.ofKindName? kind, given.value? .hex, given.value? .file with
    | some type, some text, none => .ok (.decode type (.hex text))
    | some type, none, some path => .ok (.decode type (.file path))
    | _, _, _ => .error .usage
  | .encode, [kind, json] =>
    match MessageType.ofKindName? kind with
    | some type =>
      .ok (.encode type json (if given.has .strict then .strict else .lenient))
    | none => .error .usage
  | _, _ => .error .usage

/-- What stands behind `help`: at most one name. -/
def helpStop : List String → Stop
  | [] => .help
  | [name] => if name = "help" ∨ (Name.ofText? name).isSome then .help else .usage
  | _ => .usage

/-- What the arguments ask for; `fallback` is the endpoint that the environment gives. -/
def parse (fallback : Option String) (arguments : List String) : Except Stop Invocation := do
  let (leading, rest) ← readArguments leadingFlags none {} arguments
  match rest with
  | [] => throw .usage
  | "help" :: rest => throw (helpStop rest)
  | first :: rest =>
    let some name := Name.ofText? first | throw .usage
    let (given, _) ← readArguments name.flags (some name.acceptsOperand) {} rest
    let command ← commandOf name given
    let endpoint :=
      (((given.value? .endpoint).or (leading.value? .endpoint)).or fallback).getD
        Client.defaultEndpoint
    return ⟨endpoint, command⟩

end NodeView.CommandLine
