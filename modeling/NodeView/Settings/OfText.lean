import NodeView.Json.Skip
import NodeView.Settings.OfJson
/-!
# NodeView.Settings.OfText

Settings from a JSON text.

The text is read from the left and each value is given to its setting at once, so the first
fault is reported whether the text or a value is at fault. As in a value, an object gives
settings by key and an array gives them by position. A key may be given once; values under
other keys are passed over.
-/

namespace NodeView.Settings

/-! Each reader yields what it read and the text behind it. -/

/-- A reading of JSON as one of settings. -/
def reading {α : Type} : Except Json.Fault α → Except JsonFault α := Except.mapError .text

/-! ### Values -/

/-- Reads a value that starts at once. Of an array or an object only the opening is read. -/
def readShallow : List Char → Json.Reading Json :=
  Json.readValueWith (fun rest => .ok ([], rest)) (fun rest => .ok ([], rest))

/-- Reads a value that starts at once and gives it to a setting. -/
def readSimple (setting : Setting) (text : List Char) :
    Except JsonFault (Assignment × List Char) := do
  let (value, rest) ← reading (readShallow text)
  return (← assignmentOfJson setting value, rest)

/-- Reads the colon behind a key. -/
def readColon (text : List Char) : Except JsonFault (List Char) :=
  match Json.skipBlanks text with
  | [] => .error (.text .endInObject)
  | ':' :: rest => .ok rest
  | _ => .error (.text .expectedColon)

/-- Reads the value of a choice behind its name, up to the closing brace. -/
def readNothing (text : List Char) : Except JsonFault (List Char) := do
  let (value, rest) ← reading (readShallow (Json.skipBlanks text))
  unless value.isNull do throw (.wrongKind value "unit")
  match Json.skipBlanks rest with
  | [] => throw (.text .endInObject)
  | '\x7d' :: rest => return rest
  | _ => throw (.text .expectedValue)

/-- Reads a choice behind its opening brace: a name, a colon and `null`. -/
def readChoice (setting : Setting) (text : List Char) :
    Except JsonFault (Assignment × List Char) :=
  match Json.skipBlanks text with
  | [] => .error (.text .endInObject)
  | '\x7d' :: _ => .error (.text .expectedValue)
  | '"' :: rest => do
    let (name, rest) ← reading (Json.readString rest)
    let assignment ← assignmentOfJson setting (.string name)
    return (assignment, ← readNothing (← readColon rest))
  | _ => .error (.text .keyNotString)

/-- Reads a value and gives it to a setting. -/
def readAssignment (setting : Setting) (text : List Char) :
    Except JsonFault (Assignment × List Char) :=
  match setting.domain, Json.skipBlanks text with
  | .name _ _, '\x7b' :: rest => readChoice setting rest
  | .name _ _, '"' :: rest => readSimple setting ('"' :: rest)
  | .name _ _, _ :: _ => .error (.text .expectedValue)
  | _, start => readSimple setting start

/-! ### Objects and arrays -/

/-- Reads a member behind the quote that opens its key; `given` are the settings that were
given before. -/
def readMember (given : List Setting) (text : List Char) :
    Except JsonFault (Option (Setting × Assignment) × List Char) := do
  let (key, rest) ← reading (Json.readString text)
  match Setting.ofKey? key with
  | none =>
    let rest ← reading (Json.skipValue (← readColon rest))
    return (none, rest)
  | some setting =>
    if setting ∈ given then throw (.duplicate setting)
    let (assignment, rest) ← readAssignment setting (← readColon rest)
    return (some (setting, assignment), rest)

/-- Reads the members of an object; `done` are the settings given so far with their values, the
last one first. Each member takes something of the text and one item of `bound`, so that a bound
as long as the text lasts. -/
def readMembers (first : Bool) (done : List (Setting × Assignment)) :
    (bound text : List Char) → Except JsonFault (List Assignment × List Char)
  | [], _ => .error (.text .endInObject)
  | _ :: bound, text =>
    let member start :=
      match readMember (done.map Prod.fst) start with
      | .error fault => .error fault
      | .ok (given, rest) => readMembers false (given.toList ++ done) bound rest
    match Json.skipBlanks text with
    | [] => .error (.text .endInObject)
    | '\x7d' :: rest => .ok (done.reverse.map Prod.snd, rest)
    | c :: rest =>
      if first then
        if c = '"' then member rest else .error (.text .keyNotString)
      else if c = ',' then
        match Json.skipBlanks rest with
        | [] => .error (.text .endInValue)
        | '"' :: start => member start
        | '\x7d' :: _ => .error (.text .trailingComma)
        | _ => .error (.text .keyNotString)
      else .error (.text .expectedObjectEnd)

/-- Reads the end of an array behind as many elements as there are settings. -/
def readListEnd (text : List Char) : Except JsonFault (List Char) :=
  match Json.skipBlanks text with
  | [] => .error (.text .endInList)
  | ']' :: rest => .ok rest
  | ',' :: rest =>
    match Json.skipBlanks rest with
    | ']' :: _ => .error (.text .trailingComma)
    | _ => .error (.text .trailingCharacters)
  | _ => .error (.text .trailingCharacters)

/-- Reads the elements of an array and gives them to settings, one after the other. -/
def readItems (first : Bool) : List Setting → List Char →
    Except JsonFault (List Assignment × List Char)
  | [], text => do return ([], ← readListEnd text)
  | setting :: settings, text => do
    let start ←
      match Json.skipBlanks text with
      | [] => throw (.text .endInList)
      | ']' :: rest => return ([], rest)
      | c :: rest =>
        if first then pure (c :: rest)
        else if c = ',' then
          match Json.skipBlanks rest with
          | [] => throw (.text .endInValue)
          | ']' :: _ => throw (.text .trailingComma)
          | start => pure start
        else throw (.text .expectedListEnd)
    let (assignment, rest) ← readAssignment setting start
    let (assignments, rest) ← readItems false settings rest
    return (assignment :: assignments, rest)

/-! ### Texts -/

/-- Reads an object or an array of settings. -/
def readSettings (text : List Char) : Except JsonFault (List Assignment × List Char) :=
  match Json.skipBlanks text with
  | '\x7b' :: rest => readMembers true [] rest rest
  | '[' :: rest => readItems true Setting.all rest
  | start => do
    let (value, _) ← reading (readShallow start)
    throw (.wrongKind value expectedRoot)

/-- The settings that a JSON text holds. -/
def ofText (text : String) : Except JsonFault Settings := do
  let (assignments, rest) ← readSettings text.toList
  match Json.skipBlanks rest with
  | [] => return ofAssignments assignments
  | _ => throw (.text .trailingCharacters)

end NodeView.Settings
