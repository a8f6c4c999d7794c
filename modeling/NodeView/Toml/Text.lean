import NodeView.Text.Escape
/-!
# NodeView.Toml.Text

Blanks, comments and strings in a TOML document.

A reader yields what it read and the text behind it, or nothing if the text goes wrong.
-/

namespace NodeView.Toml

/-! ### Blanks and comments -/

/-- Whether a character is a blank within a line. -/
def isSpace (c : Char) : Bool := c = ' ' || c = '\t'

/-- A text without the blanks in front. -/
def skipSpaces (text : List Char) : List Char := text.dropWhile isSpace

/-- Passes over the end of a line, in either spelling. -/
def readNewline : List Char → Option (List Char)
  | '\n' :: rest => some rest
  | '\r' :: '\n' :: rest => some rest
  | _ => none

/-- Passes over a comment, if there is one. -/
def skipComment : List Char → List Char
  | '#' :: rest => rest.dropWhile fun c => ! Text.isControl c
  | text => text

/-- Passes over the rest of a line with nothing in it, up to the next line or the end. -/
def readLineEnd (text : List Char) : Option (List Char) :=
  match skipComment (skipSpaces text) with
  | [] => some []
  | rest => readNewline rest

/-- Passes over blanks, comments and line ends. Each line takes something of the text and one
item of `bound`, so that a bound as long as the text lasts. -/
def skipLinesFrom : (bound text : List Char) → List Char
  | [], text => text
  | _ :: bound, text =>
    match readNewline (skipComment (skipSpaces text)) with
    | some rest => skipLinesFrom bound rest
    | none => skipComment (skipSpaces text)

/-- Passes over blanks, comments and line ends. -/
def skipLines (text : List Char) : List Char := skipLinesFrom text text

/-! ### Strings within a line -/

/-- Reads a string without escapes up to its closing apostrophe. -/
def readLiteral (text : List Char) : Option (String × List Char) :=
  let body := text.takeWhile fun c => c ≠ '\'' && ! Text.isControl c
  match text.drop body.length with
  | '\'' :: rest => some (String.ofList body, rest)
  | _ => none

/-! ### Strings over several lines -/

/-- A text without the line end in front, if there is one. -/
def skipNewline (text : List Char) : List Char := (readNewline text).getD text

/-- Passes over blanks and line ends. Each line takes something of the text and one item of
`bound`, so that a bound as long as the text lasts. -/
def skipBlankLinesFrom : (bound text : List Char) → List Char
  | [], text => text
  | _ :: bound, text =>
    match readNewline (skipSpaces text) with
    | some rest => skipBlankLinesFrom bound rest
    | none => skipSpaces text

/-- Passes over blanks and line ends. -/
def skipBlankLines (text : List Char) : List Char := skipBlankLinesFrom text text

/-- Reads one character of a string over several lines with escapes, or passes over a backslash
at the end of a line with all blank lines behind it. -/
def readPiece : List Char → Option (List Char × List Char)
  | [] => none
  | '\\' :: rest =>
    match readNewline (skipSpaces rest) with
    | some after => some ([], skipBlankLines after)
    | none => (Text.readEscape rest).map fun (c, after) => ([c], after)
  | c :: rest =>
    match readNewline (c :: rest) with
    | some after => some (['\n'], after)
    | none => if Text.isControl c then none else some ([c], rest)

/-- Reads one character of a string over several lines without escapes. -/
def readLiteralPiece : List Char → Option (List Char × List Char)
  | [] => none
  | c :: rest =>
    match readNewline (c :: rest) with
    | some after => some (['\n'], after)
    | none => if Text.isControl c then none else some ([c], rest)

/-- Reads a string over several lines up to its three closing quotes; `done` holds its
characters so far, the last one first. Up to two more quotes in front of the closing ones
belong to the string. Each piece takes something of the text and one item of `bound`, so that a
bound as long as the text lasts. -/
def readLongFrom (quote : Char) (piece : List Char → Option (List Char × List Char))
    (done : List Char) : (bound text : List Char) → Option (String × List Char)
  | [], _ => none
  | _ :: bound, text =>
    let quotes := text.takeWhile (· = quote)
    if 3 ≤ quotes.length then
      if quotes.length ≤ 5 then
        some (String.ofList (done.reverse ++ quotes.drop 3), text.drop quotes.length)
      else none
    else
      match piece (text.drop quotes.length) with
      | none => none
      | some (read, rest) => readLongFrom quote piece (read.reverse ++ quotes ++ done) bound rest

/-- Reads a string over several lines behind its opening quotes and the line end that may follow
them. -/
def readLong (quote : Char) (piece : List Char → Option (List Char × List Char))
    (text : List Char) : Option (String × List Char) :=
  readLongFrom quote piece [] (skipNewline text) (skipNewline text)

/-! ### Strings -/

/-- Reads a string of any of the four forms. -/
def readText : List Char → Option (String × List Char)
  | '"' :: '"' :: '"' :: rest => readLong '"' readPiece rest
  | '\'' :: '\'' :: '\'' :: rest => readLong '\'' readLiteralPiece rest
  | '"' :: rest => Text.readQuoted rest
  | '\'' :: rest => readLiteral rest
  | _ => none

end NodeView.Toml
