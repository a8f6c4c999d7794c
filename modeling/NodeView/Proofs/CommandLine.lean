import NodeView.CommandLine.Run
import NodeView.Proofs.Hex
import NodeView.Proofs.Message.JsonForm
import NodeView.Proofs.Message.Size
/-!
# NodeView.Proofs.CommandLine

Decoding and encoding on the command line, one after the other.

What arguments of a known shape ask for is found an argument at a time (`readArguments_value` and
the lemmas around it), which leaves one lemma for each command: what `decode` shows is the pretty
text of a message (`run_decode`), and what `encode` shows is the bytes of the message that a JSON
text writes (`run_encode`). The pretty text of a message is read as the message, and no binary
form of it is longer than what it was read from, so the commands undo each other
(`run_decode_stable`), however far from canonical the first input is.
-/

namespace NodeView.CommandLine

/-! ### What an argument looks like -/

theorem Argument.ofString_of_head {text : String} (h : text.toList.head? ≠ some '-') :
    Argument.ofString text = .plain text := by
  unfold Argument.ofString
  split
  · rename_i heq
    exact absurd (congrArg List.head? heq) h
  · rename_i heq
    exact absurd (congrArg List.head? heq) h
  · rename_i heq
    exact absurd (congrArg List.head? heq) h
  · rfl

theorem Argument.eq_of_plain {argument text : String}
    (h : Argument.ofString argument = .plain text) : text = argument := by
  unfold Argument.ofString at h
  split at h
  · cases h
  · dsimp only at h
    split at h <;> cases h
  · cases h
  · cases h
    rfl

theorem ofString_kindName (type : MessageType) :
    Argument.ofString type.kindName = .plain type.kindName := by
  cases type <;> decide

theorem ofString_encode (bytes : List UInt8) :
    Argument.ofString (Hex.encode bytes) = .plain (Hex.encode bytes) := by
  refine Argument.ofString_of_head fun h => ?_
  exact Hex.dash_not_mem_lowerDigits (Hex.mem_lowerDigits_of_mem_encode _ (List.mem_of_head? h))

/-- An object opens with a brace, so its text is no option. -/
theorem ofString_pretty_object (members : List (String × Json)) :
    Argument.ofString (Json.object members).pretty = .plain (Json.object members).pretty := by
  refine Argument.ofString_of_head ?_
  rw [Json.pretty, String.toList_ofList]
  cases members <;> simp [Json.prettyChars]

/-! ### Reading arguments -/

section

variable {known : List Flag} {accepts : Nat → String → Bool} {given : Given}

theorem readArguments_name {argument text : String}
    (h : Argument.ofString argument = .plain text) (arguments : List String) :
    readArguments known none given (argument :: arguments) = .ok (given, text :: arguments) := by
  rw [readArguments]
  simp only [h]

theorem readArguments_operand {argument text : String}
    (h : Argument.ofString argument = .plain text) (arguments : List String) :
    readArguments known (some accepts) given (argument :: arguments) = (do
      readArguments known (some accepts) (← given.operand accepts text) arguments) := by
  rw [readArguments]
  simp only [h]

theorem flagOf_long {name : String} {flag : Flag} (h : known.find? (·.long = name) = some flag) :
    flagOf known (.long name none) = .ok (flag, none) := by
  simp only [flagOf, h, Option.isSome_none, Bool.false_eq_true, and_false, if_false]

/-- The argument behind an option with a value is the value, unless it looks like an option. -/
theorem readArguments_value {name argument : String} {flag : Flag}
    (h : Argument.ofString argument = .long name none)
    (hflag : known.find? (·.long = name) = some flag) (hvalue : flag.takesValue = true)
    (next : String) (arguments : List String) :
    readArguments known (some accepts) given (argument :: next :: arguments)
      = match Argument.ofString next with
        | .plain value => do
          readArguments known (some accepts) (← given.give flag value) arguments
        | _ => .error .usage := by
  rw [readArguments.eq_def]
  simp only [h, flagOf_long hflag, bind, Except.bind, hvalue, if_true]
  rfl

theorem readArguments_switch {name argument : String} {flag : Flag}
    (h : Argument.ofString argument = .long name none)
    (hflag : known.find? (·.long = name) = some flag) (hvalue : flag.takesValue = false) :
    readArguments known (some accepts) given [argument] = (do
      return (← given.give flag "", [])) := by
  rw [readArguments.eq_def]
  simp only [h, flagOf_long hflag, bind, Except.bind, hvalue, Bool.false_eq_true, if_false]

theorem readArguments_nil (accepts : Option (Nat → String → Bool)) :
    readArguments known accepts given [] = .ok (given, []) := by
  rw [readArguments]

end

/-- Behind the name of a command stand its own options and operands. -/
theorem parse_name (name : Name) (fallback : Option String) (arguments : List String) :
    parse fallback (name.text :: arguments) = (do
      let (given, _) ← readArguments name.flags (some name.acceptsOperand) {} arguments
      let command ← commandOf name given
      return ⟨((given.value? .endpoint).or fallback).getD Client.defaultEndpoint, command⟩) := by
  have hplain : Argument.ofString name.text = .plain name.text := by
    cases name <;> decide
  have hname : Name.ofText? name.text = some name := by
    cases name <;> decide
  have hhelp : name.text ≠ "help" := by
    cases name <;> decide
  have hleading : Given.value? {} .endpoint = none := rfl
  unfold parse
  rw [readArguments_name hplain]
  simp only [bind, Except.bind, hname, hleading, Option.or_none]

/-! ### The two commands -/

/-- The arguments that ask for the JSON text of a message in hexadecimal digits. -/
def decodeArguments (type : MessageType) (text : String) : List String :=
  ["decode", type.kindName, "--hex", text]

/-- The option that asks for a policy on unknown keys. -/
def policyArguments : KeyPolicy → List String
  | .lenient => []
  | .strict => ["--strict"]

/-- The arguments that ask for the hexadecimal digits of a message in JSON. -/
def encodeArguments (type : MessageType) (json : String) (policy : KeyPolicy) : List String :=
  ["encode", type.kindName, json] ++ policyArguments policy

theorem parse_decode (fallback : Option String) (type : MessageType) (text : String) :
    parse fallback (decodeArguments type text)
      = match Argument.ofString text with
        | .plain value =>
          .ok ⟨fallback.getD Client.defaultEndpoint, .decode type (.hex value)⟩
        | _ => .error .usage := by
  have hoperand : Given.operand {} Name.decode.acceptsOperand type.kindName
      = .ok { operands := [type.kindName] } := by
    cases type <;> rfl
  have hhex : Argument.ofString "--hex" = .long "hex" none := by decide
  have hread : readArguments Name.decode.flags (some Name.decode.acceptsOperand) {}
      [type.kindName, "--hex", text]
      = match Argument.ofString text with
        | .plain value => .ok (⟨[(.hex, value)], [type.kindName]⟩, [])
        | _ => .error .usage := by
    rw [readArguments_operand (ofString_kindName type), hoperand]
    simp only [bind, Except.bind]
    rw [readArguments_value hhex (by decide : _ = some Flag.hex) rfl]
    cases Argument.ofString text with
    | plain value => exact readArguments_nil _
    | _ => rfl
  rw [decodeArguments, show "decode" = Name.decode.text from rfl, parse_name, hread]
  cases Argument.ofString text with
  | plain value =>
      simp only [bind, Except.bind, commandOf, MessageType.ofKindName?_kindName]
      rfl
  | _ => rfl

theorem parse_encode {json : String} (hjson : Argument.ofString json = .plain json)
    (fallback : Option String) (type : MessageType) (policy : KeyPolicy) :
    parse fallback (encodeArguments type json policy)
      = .ok ⟨fallback.getD Client.defaultEndpoint, .encode type json policy⟩ := by
  have hkind : Given.operand {} Name.encode.acceptsOperand type.kindName
      = .ok { operands := [type.kindName] } := by
    cases type <;> rfl
  have hstrict : Argument.ofString "--strict" = .long "strict" none := by decide
  have hread : readArguments Name.encode.flags (some Name.encode.acceptsOperand) {}
      ([type.kindName, json] ++ policyArguments policy)
      = .ok (⟨match policy with | .lenient => [] | .strict => [(.strict, "")],
          [type.kindName, json]⟩, []) := by
    rw [List.cons_append, readArguments_operand (ofString_kindName type), hkind]
    simp only [bind, Except.bind]
    rw [List.cons_append, readArguments_operand hjson]
    cases policy with
    | lenient => exact readArguments_nil _
    | strict => exact readArguments_switch hstrict (by decide : _ = some Flag.strict) rfl
  rw [encodeArguments, List.cons_append, show "encode" = Name.encode.text from rfl, parse_name,
    hread]
  simp only [bind, Except.bind, commandOf, MessageType.ofKindName?_kindName]
  cases policy <;> rfl

/-- `decode` shows the pretty text of the message that the digits write. -/
theorem run_decode (world : World) {type : MessageType} {text : String} {bytes : List UInt8}
    {message : Message} (hplain : Argument.ofString text = .plain text)
    (hhex : Hex.decode (Text.trim text) = .ok bytes)
    (hdecode : Message.decode type bytes = .ok message) :
    run world (decodeArguments type text) = .success [message.toJson.pretty] := by
  rw [run, parse_decode, hplain]
  simp only [execute, readInput, hhex, Except.mapError, bind, Except.bind,
    MessageType.binaryToJson, hdecode]
  rfl

/-- Where `decode` succeeds, its argument holds the digits of a message. -/
theorem exists_message_of_run_decode {world : World} {type : MessageType} {text : String}
    (h : (run world (decodeArguments type text)).exit = 0) :
    Argument.ofString text = .plain text ∧ ∃ bytes message,
      Hex.decode (Text.trim text) = .ok bytes ∧ Message.decode type bytes = .ok message := by
  rw [run, parse_decode] at h
  cases hargument : Argument.ofString text with
  | plain value =>
      obtain rfl := Argument.eq_of_plain hargument
      refine ⟨rfl, ?_⟩
      rw [hargument] at h
      cases hhex : Hex.decode (Text.trim value) with
      | error fault =>
          simp only [execute, readInput, hhex] at h
          cases h
      | ok bytes =>
          cases hdecode : Message.decode type bytes with
          | error fault =>
              simp only [execute, readInput, hhex, Except.mapError, bind, Except.bind,
                MessageType.binaryToJson, hdecode] at h
              cases h
          | ok message => exact ⟨bytes, message, rfl, hdecode⟩
  | _ =>
      rw [hargument] at h
      cases h

/-- `encode` shows the digits of the message that a JSON text writes. -/
theorem run_encode (world : World) {type : MessageType} {json : String} {policy : KeyPolicy}
    {message : Message} (hplain : Argument.ofString json = .plain json)
    (hread : Message.ofJsonText type policy json = .ok message) :
    run world (encodeArguments type json policy) = .success [Hex.encode message.encode] := by
  rw [run, parse_encode hplain]
  simp only [execute, MessageType.jsonToBinary, hread]
  rfl

/-! ### One after the other -/

/-- **Decoding and encoding are mutually stable.** Where `decode` takes some digits and shows a
JSON text, `encode` takes this text under either policy and shows the digits of a message, and
`decode` takes the digits of any binary form of this message, whatever the order of its votes,
and shows the same text again. -/
theorem run_decode_stable {world : World} {type : MessageType} {text : String}
    (h : (run world (decodeArguments type text)).exit = 0) :
    ∃ (json : String) (message : Message),
      run world (decodeArguments type text) = .success [json]
      ∧ (∀ later policy,
        run later (encodeArguments type json policy) = .success [Hex.encode message.encode])
      ∧ message.BinaryForm message.encode
      ∧ ∀ bytes, message.BinaryForm bytes →
        bytes.length ≤ Message.defaultLimit
        ∧ (∀ c ∈ (Hex.encode bytes).toList, c ∈ Hex.lowerDigits)
        ∧ ∀ later, run later (decodeArguments type (Hex.encode bytes)) = .success [json] := by
  obtain ⟨hplain, bytes, message, hhex, hdecode⟩ := exists_message_of_run_decode h
  obtain ⟨hlimit, fields, -, hmessage⟩ := Message.decode_eq_ok hdecode
  have htype : message.type = type := by rw [hmessage, Message.type_ofFields]
  have hjson : Argument.ofString message.toJson.pretty = .plain message.toJson.pretty := by
    rw [message.toJson_eq]
    exact ofString_pretty_object _
  refine ⟨message.toJson.pretty, message, run_decode world hplain hhex hdecode, ?_,
    message.binaryForm_encode, ?_⟩
  · intro later policy
    have hread := message.ofJsonText_pretty policy
    rw [htype] at hread
    exact run_encode later hjson hread
  · intro form hform
    have hlength : form.length ≤ Message.defaultLimit := by
      rw [hform.length_eq]
      exact Nat.le_trans (Message.encodedSize_le_of_decode hdecode) hlimit
    refine ⟨hlength, Hex.mem_lowerDigits_of_mem_encode, fun later => ?_⟩
    have hagain : Message.decode type form = .ok message :=
      hform.decode_of_decode 4194304 hdecode
    refine run_decode later (ofString_encode form) ?_ hagain
    rw [Hex.trim_encode, Hex.decode_encode]

/-- An identifier that is given twice, a token in two parts, a vote that is changed, a number with
needless groups and an unknown field, in digits of either case with blanks around them. -/
theorem run_decode_stable_record :
    let world : World := ⟨fun _ => .error .notFound, Reach.nowhere, none⟩
    let text := "  0A01410a014232030A01583203120159"
      ++ "4a050A016110014A030A0161388580005807\n"
    let json := "\x7b\n  \"amount\": \"5\",\n  \"id\": \"B\",\n  \"token\": \x7b\n"
      ++ "    \"name\": \"X\",\n    \"symbol\": \"Y\"\n  \x7d,\n"
      ++ "  \"validators\": \x7b\n    \"a\": false\n  \x7d\n\x7d"
    run world (decodeArguments .transactionRecord text) = .success [json]
      ∧ ∃ (shown : String) (message : Message),
        run world (decodeArguments .transactionRecord text) = .success [shown]
        ∧ (∀ later policy, run later (encodeArguments .transactionRecord shown policy)
          = .success [Hex.encode message.encode])
        ∧ message.BinaryForm message.encode
        ∧ ∀ bytes, message.BinaryForm bytes →
          bytes.length ≤ Message.defaultLimit
          ∧ (∀ c ∈ (Hex.encode bytes).toList, c ∈ Hex.lowerDigits)
          ∧ ∀ later, run later (decodeArguments .transactionRecord (Hex.encode bytes))
            = .success [shown] := by
  intro world text json
  have hshown : run world (decodeArguments .transactionRecord text) = .success [json] := by
    decide +kernel
  exact ⟨hshown, run_decode_stable (by rw [hshown]; rfl)⟩

end NodeView.CommandLine
