/-!
# NodeView.Json.Fault

Why a text is not JSON.

A text that ends too early is told apart from one that goes on wrongly: the first names what
it ended in, the second what should have been there.
-/

namespace NodeView.Json

/-- What is wrong with a text. -/
inductive Fault where
  /-- The text ends where a value should start, or inside a literal or a number. -/
  | endInValue
  /-- The text ends inside a string. -/
  | endInString
  /-- The text ends inside an array. -/
  | endInList
  /-- The text ends inside an object. -/
  | endInObject
  /-- No value starts here. -/
  | expectedValue
  /-- A literal name is misspelt. -/
  | expectedLiteral
  /-- A number has a needless zero or lacks a digit. -/
  | invalidNumber
  /-- A number is too large to be represented. -/
  | numberOutOfRange
  /-- A key is not followed by a colon. -/
  | expectedColon
  /-- An element is followed by neither a comma nor the end of the array. -/
  | expectedListEnd
  /-- A member is followed by neither a comma nor the end of the object. -/
  | expectedObjectEnd
  /-- A comma is followed by the end of the array or object. -/
  | trailingComma
  /-- A member does not start with a string. -/
  | keyNotString
  /-- Something follows the value. -/
  | trailingCharacters
  /-- An escape has an unknown letter or a digit that is none. -/
  | invalidEscape
  /-- The second half of a surrogate pair comes first, or something else comes second. -/
  | loneSurrogate
  /-- The first half of a surrogate pair is not followed by an escape. -/
  | halfSurrogatePair
  /-- A control character stands unescaped in a string. -/
  | controlCharacter
  /-- Arrays and objects are nested too deeply. -/
  | tooDeep
  deriving DecidableEq, Repr

namespace Fault

/-- Whether the text just ended too early. -/
def isEnd : Fault → Bool
  | .endInValue | .endInString | .endInList | .endInObject => true
  | _ => false

/-- The wording of a fault. -/
def message : Fault → String
  | .endInValue => "EOF while parsing a value"
  | .endInString => "EOF while parsing a string"
  | .endInList => "EOF while parsing a list"
  | .endInObject => "EOF while parsing an object"
  | .expectedValue => "expected value"
  | .expectedLiteral => "expected ident"
  | .invalidNumber => "invalid number"
  | .numberOutOfRange => "number out of range"
  | .expectedColon => "expected `:`"
  | .expectedListEnd => "expected `,` or `]`"
  | .expectedObjectEnd => "expected `,` or `\x7d`"
  | .trailingComma => "trailing comma"
  | .keyNotString => "key must be a string"
  | .trailingCharacters => "trailing characters"
  | .invalidEscape => "invalid escape"
  | .loneSurrogate => "lone leading surrogate in hex escape"
  | .halfSurrogatePair => "unexpected end of hex escape"
  | .controlCharacter => "control character (\\u0000-\\u001F) found while parsing a string"
  | .tooDeep => "recursion limit exceeded"

end Fault

/-- What reading from a text gives: a value and the text behind it. -/
abbrev Reading (α : Type) := Except Fault (α × List Char)

/-- Whether a character may stand between the parts of a text. -/
def isBlank (c : Char) : Bool := c = ' ' || c = '\n' || c = '\t' || c = '\r'

/-- A text without the blanks in front. -/
def skipBlanks (text : List Char) : List Char := text.dropWhile isBlank

end NodeView.Json
