/-!
# NodeView.Endpoint

Which texts name a place to connect to.

A text does if it is a URI: a scheme with an authority and perhaps a path and a query behind
it, or an authority alone, or a path alone. A text that starts with `unix:` names a file.

* An authority is made of a few characters. It holds at most one pair of brackets, and behind
  the last `@` and the brackets at most one colon and no percent sign.
* Paths and queries take any character outside of ASCII, and of ASCII all but a few.
-/

namespace NodeView.Endpoint

/-- The length of the longest URI. -/
def maxLength : Nat := 65534

/-- The length of the longest scheme. -/
def maxScheme : Nat := 64

/-- How many colons may stand behind each other without a bracket or `@` between them. -/
def maxColons : Nat := 8

/-- Whether a scheme may hold a character. -/
def isSchemeChar (c : Char) : Bool := c.isAlphanum || c ∈ ['+', '-', '.', '~']

/-- Whether an authority may hold a character. -/
def isAuthorityChar (c : Char) : Bool :=
  c.isAlphanum || "!$&'()*+,-.:;=@[]_~%".toList.contains c

/-- Whether an authority ends before a character. -/
def endsAuthority (c : Char) : Bool := c = '/' || c = '?' || c = '#'

/-- Whether a character is a blank or a control character of ASCII. -/
def isHidden (c : Char) : Bool := c.toNat ≤ 0x20 || c.toNat = 0x7f

/-- Whether a path may hold a character. -/
def isPathChar (c : Char) : Bool := ! isHidden c && ! "#<>?\x60".toList.contains c

/-- Whether a query may hold a character. -/
def isQueryChar (c : Char) : Bool := ! isHidden c && ! "\"#<>".toList.contains c

/-! ### Schemes -/

/-- The text behind the scheme and its `://`, if there is a scheme; nothing if it is too
long. -/
def afterScheme (text : List Char) : Option (Option (List Char)) :=
  let scheme := text.takeWhile isSchemeChar
  match text.drop scheme.length with
  | ':' :: '/' :: '/' :: rest => if maxScheme < scheme.length then none else some (some rest)
  | _ => some none

/-! ### Authorities -/

/-- What was seen of an authority. -/
structure Seen where
  /-- Colons since the last `@` or bracket. -/
  colons : Nat := 0
  /-- An opening bracket. -/
  isOpened : Bool := false
  /-- A closing bracket. -/
  isClosed : Bool := false
  /-- A percent sign since the last `@` or bracket. -/
  percent : Bool := false

/-- Takes note of one more character, if it may stand there. -/
def see (seen : Seen) (c : Char) : Option Seen :=
  if ¬ isAuthorityChar c then none
  else
    match c with
    | ':' => if seen.colons < maxColons then some { seen with colons := seen.colons + 1 } else none
    | '[' => if seen.percent || seen.isOpened then none else some { seen with isOpened := true }
    | ']' =>
      if ! seen.isOpened || seen.isClosed then none
      else some { seen with isClosed := true, colons := 0, percent := false }
    | '@' => some { seen with colons := 0, percent := false }
    | '%' => some { seen with percent := true }
    | _ => some seen

/-- Whether a text is an authority. -/
def isAuthority (text : List Char) : Bool :=
  match text.foldlM see {} with
  | none => false
  | some seen =>
    seen.isOpened = seen.isClosed && seen.colons ≤ 1 && ! seen.percent
      && text.getLast? ≠ some '@'

/-! ### Paths and queries -/

/-- Whether a text is a path, perhaps with a query and a fragment. -/
def isPath (text : List Char) : Bool :=
  let path := text.takeWhile fun c => c ≠ '?' && c ≠ '#'
  let query := ((text.drop path.length).takeWhile (· ≠ '#')).drop 1
  path.all isPathChar && query.all isQueryChar

/-! ### Endpoints -/

/-- Whether a text of at least two characters is a URI that does not start with a slash. -/
def isFull (text : List Char) : Bool :=
  match afterScheme text with
  | none => false
  | some none => isAuthority text
  | some (some rest) =>
    let authority := rest.takeWhile fun c => ! endsAuthority c
    authority ≠ [] && isAuthority authority && isPath (rest.drop authority.length)

/-- Whether a text names a place to connect to. -/
def isValid (text : String) : Bool :=
  match text.toList with
  | 'u' :: 'n' :: 'i' :: 'x' :: ':' :: _ => true
  | chars =>
    text.utf8ByteSize ≤ maxLength &&
    match chars with
    | [] => false
    | ['*'] => true
    | '/' :: _ => isPath chars
    | _ => isFull chars

end NodeView.Endpoint
