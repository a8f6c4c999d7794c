import NodeView.Toml.Number
import NodeView.Toml.Table
/-!
# NodeView.Toml.Statement

The statements of a TOML document: headers, and keys with their values.

A statement takes a line, or several where its value does. Arrays may go over several lines and
may end in a comma; tables within braces may not. Keys have fewer than eighty steps, and arrays
and tables within braces are nested less than eighty deep.
-/

namespace NodeView.Toml

/-- A statement of a document. -/
inductive Statement where
  /-- Puts a value under a key of the open table. -/
  | assign (key : Key) (value : Toml)
  /-- Opens a table. -/
  | table (key : Key)
  /-- Opens one more table of an array of tables. -/
  | element (key : Key)

/-- More steps or levels than there may be. -/
def tooMany : Nat := 80

/-! ### Keys -/

/-- Reads one step of a key. -/
def readStep : List Char → Option (String × List Char)
  | '"' :: rest => Text.readQuoted rest
  | '\'' :: rest => readLiteral rest
  | text =>
    let step := text.takeWhile Text.isKeyChar
    if step = [] then none else some (String.ofList step, text.dropWhile Text.isKeyChar)

/-- Reads steps of a key with points between them and the blanks around them; `done` holds those
read so far, the last one first. Each of them takes something of the text and one item of
`bound`, so that a bound as long as the text lasts. -/
def readSteps (done : List String) :
    (bound text : List Char) → Option (List String × List Char)
  | [], _ => none
  | _ :: bound, text =>
    match readStep (skipSpaces text) with
    | none => none
    | some (step, rest) =>
      match skipSpaces rest with
      | '.' :: rest => readSteps (step :: done) bound rest
      | rest => some (step :: done, rest)

/-- Reads a key with the blanks around it. -/
def readKey (text : List Char) : Option (Key × List Char) :=
  match readSteps [] text text with
  | some (last :: above, rest) =>
    if above.length + 1 < tooMany then some (⟨above.reverse, last⟩, rest) else none
  | _ => none

/-! ### Values -/

/-- Reads the items of an array up to its closing bracket; `done` holds those read so far, the
last one first. Each of them takes something of the text and one item of `bound`, so that a
bound as long as the text lasts. -/
def readItems (item : List Char → Option (Toml × List Char)) (done : List Toml) :
    (bound text : List Char) → Option (List Toml × List Char)
  | [], _ => none
  | _ :: bound, text =>
    match skipLines text with
    | ']' :: rest => some (done.reverse, rest)
    | start =>
      match item start with
      | none => none
      | some (value, rest) =>
        match skipLines rest with
        | ']' :: rest => some ((value :: done).reverse, rest)
        | ',' :: rest => readItems item (value :: done) bound rest
        | _ => none

/-- Reads an array behind its opening bracket. -/
def readArray (item : List Char → Option (Toml × List Char)) (text : List Char) :
    Option (List Toml × List Char) :=
  readItems item [] text text

/-- Reads a key with its value. -/
def readAssignment (value : List Char → Option (Toml × List Char)) (text : List Char) :
    Option ((Key × Toml) × List Char) := do
  let (key, rest) ← readKey text
  let (value, rest) ← value (skipSpaces (← Text.readChar '=' rest))
  return ((key, value), rest)

/-- Reads the members of a table within braces up to its closing brace; `parts` are those read
so far. Each member takes something of the text and one item of `bound`, so that a bound as long
as the text lasts. -/
def readMembers (value : List Char → Option (Toml × List Char)) (parts : Parts) :
    (bound text : List Char) → Option (Parts × List Char)
  | [], _ => none
  | _ :: bound, text =>
    match readAssignment value text with
    | none => none
    | some ((key, v), rest) =>
      match parts.assign key v with
      | none => none
      | some parts =>
        match skipSpaces rest with
        | '\x7d' :: rest => some (parts, rest)
        | ',' :: rest => readMembers value parts bound rest
        | _ => none

/-- Reads a table within braces behind its opening brace. -/
def readBraced (value : List Char → Option (Toml × List Char)) (text : List Char) :
    Option (Parts × List Char) :=
  match skipSpaces text with
  | '\x7d' :: rest => some ([], rest)
  | start => readMembers value [] start start

/-- Reads a value; `array` and `braced` read what is inside brackets and braces. -/
def readValueWith (array : List Char → Option (List Toml × List Char))
    (braced : List Char → Option (Parts × List Char)) : List Char → Option (Toml × List Char)
  | '"' :: rest => (readText ('"' :: rest)).map fun (s, rest) => (.string s, rest)
  | '\'' :: rest => (readText ('\'' :: rest)).map fun (s, rest) => (.string s, rest)
  | '[' :: rest => (array rest).map fun (items, rest) => (.array items, rest)
  | '\x7b' :: rest => (braced rest).map fun (parts, rest) => (.table (membersOf parts), rest)
  | 't' :: 'r' :: 'u' :: 'e' :: rest => some (.bool true, rest)
  | 'f' :: 'a' :: 'l' :: 's' :: 'e' :: rest => some (.bool false, rest)
  | text => readNumber text

/-- Reads a value in which arrays and tables within braces are nested at most `depth` deep. -/
def readValue : (depth : Nat) → List Char → Option (Toml × List Char)
  | 0 => readValueWith (fun _ => none) (fun _ => none)
  | depth + 1 => readValueWith (readArray (readValue depth)) (readBraced (readValue depth))

/-! ### Statements -/

/-- Reads a statement that starts at once, without the end of its line. -/
def readStatement : List Char → Option (Statement × List Char)
  | '[' :: '[' :: rest => do
    let (key, rest) ← readKey rest
    return (.element key, ← Text.readChar ']' (← Text.readChar ']' rest))
  | '[' :: rest => do
    let (key, rest) ← readKey rest
    return (.table key, ← Text.readChar ']' rest)
  | text =>
    (readAssignment (readValue (tooMany - 1)) text).map fun ((key, value), rest) =>
      (.assign key value, rest)

/-- Reads statements up to the end of the text; `done` holds those read so far, the last one
first. Each of them takes something of the text and one item of `bound`, so that a bound as long
as the text lasts. -/
def readStatementsFrom (done : List Statement) :
    (bound text : List Char) → Option (List Statement)
  | [], _ => some done.reverse
  | _ :: bound, text =>
    match skipLines text with
    | [] => some done.reverse
    | start =>
      match readStatement start with
      | none => none
      | some (statement, rest) =>
        match readLineEnd rest with
        | none => none
        | some rest => readStatementsFrom (statement :: done) bound rest

/-- Reads all statements of a document. -/
def readStatements (text : List Char) : Option (List Statement) := readStatementsFrom [] text text

end NodeView.Toml
