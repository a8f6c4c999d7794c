import NodeView.Layer.Basic
import NodeView.Text.Blank
import NodeView.Text.Escape
/-!
# NodeView.Layer.EnvironmentValue

What the text of an environment variable says.

* `true` and `false` are truth values, `{k=v, …}` is a table, `[v, …]` a list, `"…"` a text with
  escapes and `'c'` one letter.
* Anything else runs up to the next comma, bracket or brace. It is a number where it reads as
  one, and a text otherwise; only a text with a point can be a number with places.
* In a text with escapes, what stands in front of the first one counts only up to a length: as
  many bytes as it has characters. So nothing but a text outside of ASCII is cut.
* A text that is not used up in this way stands for itself, with the blanks at its ends.
-/

namespace NodeView.EnvironmentValue

/-- A text without ASCII white space in front. -/
def skipBlanks (text : List Char) : List Char := text.dropWhile Text.isAsciiBlank

/-! ### Bare texts -/

/-- Whether a character ends a bare text. -/
def isSeparator (c : Char) : Bool := [',', '{', '}', '[', ']'].contains c

/-- The number without a sign that a text writes, if it fits 64 bits. -/
def unsigned? (text : List Char) : Option Nat :=
  let digits :=
    match text with
    | '+' :: rest => rest
    | _ => text
  if digits ≠ [] ∧ digits.all Char.isDigit ∧ Text.decimalValue digits < 2 ^ 64 then
    some (Text.decimalValue digits)
  else none

/-- The negative number, or negated zero, that a text writes, if it fits 64 bits. -/
def negative? : List Char → Option Int
  | '-' :: digits =>
    if digits ≠ [] ∧ digits.all Char.isDigit ∧ Text.decimalValue digits ≤ 2 ^ 63 then
      some (-(Text.decimalValue digits : Int))
    else none
  | _ => none

/-- What a bare text says. -/
def bare (text : List Char) : Scalar :=
  match if text.contains '.' then Extended.ofChars? text else none with
  | some x => .real x
  | none =>
    match unsigned? text with
    | some n => .unsigned n
    | none =>
      match negative? text with
      | some n => .signed n
      | none => .text (String.ofList text)

/-! ### Quoted texts -/

/-- The longest beginning of a text that takes at most `size` bytes. -/
def takeBytes : (size : Nat) → List Char → List Char
  | _, [] => []
  | size, c :: rest =>
    if c.utf8Size ≤ size then c :: takeBytes (size - c.utf8Size) rest else []

theorem takeBytes_isPrefix (size : Nat) (text : List Char) : takeBytes size text <+: text := by
  induction text generalizing size with
  | nil => simp [takeBytes]
  | cons c rest ih =>
    by_cases h : c.utf8Size ≤ size
    · simpa [takeBytes, h] using ih (size - c.utf8Size)
    · simp [takeBytes, h]

/-- Reads a text behind its quote. Of what stands in front of the first escape, if there is one,
only as many bytes count as there are characters. -/
def readText (text : List Char) : Option (String × List Char) := do
  let (s, rest) ← Text.readQuoted text
  let front := text.takeWhile fun c => ! ['"', '\\'].contains c
  if (text.drop front.length).head? = some '\\' then
    return (String.ofList (takeBytes front.length front ++ s.toList.drop front.length), rest)
  else return (s, rest)

/-! ### Values -/

/-- Reads items with commas between them up to `close`; `done` holds those read so far, the
last one first. Each of them takes at least the comma behind it and one item of `bound`, so that
a bound as long as the text lasts. -/
def readItemsFrom {α : Type} (item : List Char → Option (α × List Char)) (close : Char)
    (done : List α) : (bound text : List Char) → Option (List α × List Char)
  | [], _ => none
  | _ :: bound, text =>
    match text with
    | [] => none
    | c :: rest =>
      if c = close then some (done.reverse, rest)
      else
        match item (c :: rest) with
        | some (value, ',' :: rest) => readItemsFrom item close (value :: done) bound rest
        | some (value, d :: rest) =>
          if d = close then some ((value :: done).reverse, rest) else none
        | _ => none

/-- Reads items with commas between them, behind the character that opens them. -/
def readItems {α : Type} (item : List Char → Option (α × List Char)) (close : Char)
    (text : List Char) : Option (List α × List Char) :=
  readItemsFrom item close [] text text

/-- Reads a key. -/
def readKey : List Char → Option (String × List Char)
  | '"' :: rest => readText rest
  | text =>
    let key := text.takeWhile Text.isKeyChar
    if key = [] then none else some (String.ofList key, text.dropWhile Text.isKeyChar)

/-- Reads a key with its value. -/
def readMember (value : List Char → Option (Entry × List Char)) (text : List Char) :
    Option ((String × Entry) × List Char) := do
  let (key, rest) ← readKey (skipBlanks text)
  match skipBlanks rest with
  | '=' :: rest =>
    let (entry, rest) ← value rest
    return ((key, entry), rest)
  | _ => none

/-- Reads a value that starts at once; `value` reads the values inside it. -/
def readStart (value : List Char → Option (Entry × List Char)) :
    List Char → Option (Entry × List Char)
  | 't' :: 'r' :: 'u' :: 'e' :: rest => some (.scalar .environment (.bool true), rest)
  | 'f' :: 'a' :: 'l' :: 's' :: 'e' :: rest => some (.scalar .environment (.bool false), rest)
  | '\x7b' :: rest =>
    (readItems (readMember value) '\x7d' rest).map fun (members, rest) =>
      (.table .environment (Keyed.ofList members), rest)
  | '[' :: rest =>
    (readItems value ']' rest).map fun (items, rest) => (.list .environment items, rest)
  | '"' :: rest =>
    (readText rest).map fun (s, rest) => (.scalar .environment (.text s), rest)
  | '\'' :: c :: '\'' :: rest => some (.scalar .environment (.letter c), rest)
  | '\'' :: _ => none
  | text =>
    some (.scalar .environment
        (bare (Text.trimChars (text.takeWhile fun c => ! isSeparator c))),
      text.dropWhile fun c => ! isSeparator c)

/-- Reads a value with the blanks around it, in which lists and tables are nested at most
`depth` deep. -/
def readValue : (depth : Nat) → List Char → Option (Entry × List Char)
  | 0, _ => none
  | depth + 1, text =>
    (readStart (readValue depth) (skipBlanks text)).map fun (entry, rest) =>
      (entry, skipBlanks rest)

/-- What the text of a variable says. No more lists and tables can be nested than the text has
characters. -/
def entryOf (text : String) : Entry :=
  match readValue (text.toList.length + 1) text.toList with
  | some (entry, []) => entry
  | _ => .scalar .environment (.text text)

end NodeView.EnvironmentValue
