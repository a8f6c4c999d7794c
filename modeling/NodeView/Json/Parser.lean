import NodeView.Json.Number
import NodeView.Json.Text
/-!
# NodeView.Json.Parser

From a text to the JSON value it writes.

* Arrays and objects may be nested 127 deep.
* Of several members with one key the last one stands, and members come out in ascending order
  of their keys.
* The first fault from the left is reported.
-/

namespace NodeView.Json

/-- How deep arrays and objects may be nested. -/
def maxDepth : Nat := 127

/-- Reads the rest of a literal name. -/
def readLiteral (value : Json) : (name : List Char) → List Char → Reading Json
  | [], text => .ok (value, text)
  | _ :: _, [] => .error .endInValue
  | n :: name, c :: rest =>
    if c = n then readLiteral value name rest else .error .expectedLiteral

/-- Reads the elements of an array behind the first; `done` holds those read so far, the last
one first. Each of them takes something of the text and one item of `bound`, so that a bound as
long as the text lasts. -/
def readElements (element : List Char → Reading Json) (done : List Json) :
    (bound text : List Char) → Reading (List Json)
  | [], _ => .error .endInList
  | _ :: bound, text =>
    match skipBlanks text with
    | [] => .error .endInList
    | ']' :: rest => .ok (done.reverse, rest)
    | ',' :: rest =>
      match skipBlanks rest with
      | [] => .error .endInValue
      | ']' :: _ => .error .trailingComma
      | start =>
        match element start with
        | .error fault => .error fault
        | .ok (value, rest) => readElements element (value :: done) bound rest
    | _ => .error .expectedListEnd

/-- Reads an array behind its opening bracket. -/
def readArray (element : List Char → Reading Json) (text : List Char) : Reading (List Json) :=
  match skipBlanks text with
  | [] => .error .endInList
  | ']' :: rest => .ok ([], rest)
  | start =>
    match element start with
    | .error fault => .error fault
    | .ok (value, rest) => readElements element [value] rest rest

/-- Reads a member of an object behind the quote that opens its key. -/
def readMember (value : List Char → Reading Json) (text : List Char) :
    Reading (String × Json) :=
  match readString text with
  | .error fault => .error fault
  | .ok (key, after) =>
    match skipBlanks after with
    | [] => .error .endInObject
    | ':' :: rest =>
      match value (skipBlanks rest) with
      | .error fault => .error fault
      | .ok (v, after) => .ok ((key, v), after)
    | _ => .error .expectedColon

/-- Reads the members of an object behind the first; `done` holds those read so far, the last
one first. Each of them takes something of the text and one item of `bound`, so that a bound as
long as the text lasts. -/
def readMembers (value : List Char → Reading Json) (done : List (String × Json)) :
    (bound text : List Char) → Reading (List (String × Json))
  | [], _ => .error .endInObject
  | _ :: bound, text =>
    match skipBlanks text with
    | [] => .error .endInObject
    | '\x7d' :: rest => .ok (done.reverse, rest)
    | ',' :: rest =>
      match skipBlanks rest with
      | [] => .error .endInValue
      | '\x7d' :: _ => .error .trailingComma
      | '"' :: start =>
        match readMember value start with
        | .error fault => .error fault
        | .ok (member, rest) => readMembers value (member :: done) bound rest
      | _ => .error .keyNotString
    | _ => .error .expectedObjectEnd

/-- Reads an object behind its opening brace. -/
def readObject (value : List Char → Reading Json) (text : List Char) :
    Reading (List (String × Json)) :=
  match skipBlanks text with
  | [] => .error .endInObject
  | '\x7d' :: rest => .ok ([], rest)
  | '"' :: start =>
    match readMember value start with
    | .error fault => .error fault
    | .ok (member, rest) => readMembers value [member] rest rest
  | _ => .error .keyNotString

/-- Reads a value that starts at once; `element` reads the values inside it. -/
def readValueWith (list : List Char → Reading (List Json))
    (object : List Char → Reading (List (String × Json))) : List Char → Reading Json
  | [] => .error .endInValue
  | 'n' :: rest => readLiteral .null ['u', 'l', 'l'] rest
  | 't' :: rest => readLiteral (.bool true) ['r', 'u', 'e'] rest
  | 'f' :: rest => readLiteral (.bool false) ['a', 'l', 's', 'e'] rest
  | '"' :: rest => (readString rest).map fun (s, rest) => (.string s, rest)
  | '[' :: rest => (list rest).map fun (items, rest) => (.array items, rest)
  | '\x7b' :: rest =>
    (object rest).map fun (members, rest) => (.object (Keyed.ofList members), rest)
  | c :: rest =>
    if c = '-' || c.isDigit then (readNumber (c :: rest)).map fun (n, rest) => (n.toJson, rest)
    else .error .expectedValue

/-- Reads a value that starts at once and nests at most `depth` arrays and objects. -/
def readValue : (depth : Nat) → List Char → Reading Json
  | 0 => readValueWith (fun _ => .error .tooDeep) (fun _ => .error .tooDeep)
  | depth + 1 => readValueWith (readArray (readValue depth)) (readObject (readValue depth))

/-- Reads a text that holds one value and nothing else. -/
def parseChars (text : List Char) : Except Fault Json :=
  match readValue maxDepth (skipBlanks text) with
  | .error fault => .error fault
  | .ok (value, rest) =>
    match skipBlanks rest with
    | [] => .ok value
    | _ => .error .trailingCharacters

/-- Reads a text that holds one value and nothing else. -/
def parse (text : String) : Except Fault Json := parseChars text.toList

end NodeView.Json
