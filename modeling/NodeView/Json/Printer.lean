import NodeView.Json.Value
/-!
# NodeView.Json.Printer

From a JSON value to a text that writes it.

The compact form has no blanks; the pretty form puts every element and member on a line of its
own, two blanks further in than what holds it. Both list members in the order they are given.
In a string only the quote, the backslash and the control characters are escaped.
-/

namespace NodeView.Json

/-- One character of a string. -/
def stringChar (c : Char) : List Char :=
  if c = '"' then ['\\', '"']
  else if c = '\\' then ['\\', '\\']
  else if c = '\x08' then ['\\', 'b']
  else if c = '\x0c' then ['\\', 'f']
  else if c = '\n' then ['\\', 'n']
  else if c = '\r' then ['\\', 'r']
  else if c = '\t' then ['\\', 't']
  else if c.toNat < 0x20 then
    ['\\', 'u', '0', '0', Nat.digitChar (c.toNat / 16), Nat.digitChar (c.toNat % 16)]
  else [c]

/-- A string with its quotes. -/
def stringChars (s : String) : List Char := '"' :: (s.toList.flatMap stringChar ++ ['"'])

/-- A whole number. -/
def integerChars (n : Int) : List Char :=
  if n < 0 then '-' :: Decimal.digitsOf n.natAbs else Decimal.digitsOf n.natAbs

/-- A value without parts. -/
def scalarChars : Json → List Char
  | .bool true => ['t', 'r', 'u', 'e']
  | .bool false => ['f', 'a', 'l', 's', 'e']
  | .integer n => integerChars n
  | .float x => floatLayout.chars x
  | .string s => stringChars s
  | _ => ['n', 'u', 'l', 'l']

/-! ### Compact form -/

mutual

/-- The compact form of a value. -/
def compactChars : Json → List Char
  | .array items => '[' :: compactItems items
  | .object members => '\x7b' :: compactMembers members
  | value => scalarChars value

/-- The compact form of the elements of an array, with its end. -/
def compactItems : List Json → List Char
  | [] => [']']
  | item :: items =>
    item.compactChars
      ++ match items with
        | [] => [']']
        | _ :: _ => ',' :: compactItems items

/-- The compact form of the members of an object, with its end. -/
def compactMembers : List (String × Json) → List Char
  | [] => ['\x7d']
  | (key, value) :: members =>
    stringChars key ++ ':' :: value.compactChars
      ++ match members with
        | [] => ['\x7d']
        | _ :: _ => ',' :: compactMembers members

end

/-- The compact form of a value. -/
def compact (value : Json) : String := String.ofList value.compactChars

/-! ### Pretty form -/

/-- A new line inside so many arrays and objects. -/
def newline (depth : Nat) : List Char := '\n' :: List.replicate (2 * depth) ' '

mutual

/-- The pretty form of a value inside so many arrays and objects. -/
def prettyChars (depth : Nat) : Json → List Char
  | .array [] => ['[', ']']
  | .object [] => ['\x7b', '\x7d']
  | .array items => '[' :: prettyItems depth items
  | .object members => '\x7b' :: prettyMembers depth members
  | value => scalarChars value

/-- The pretty form of the elements of an array, with its end. -/
def prettyItems (depth : Nat) : List Json → List Char
  | [] => newline depth ++ [']']
  | item :: items =>
    newline (depth + 1) ++ item.prettyChars (depth + 1)
      ++ match items with
        | [] => newline depth ++ [']']
        | _ :: _ => ',' :: prettyItems depth items

/-- The pretty form of the members of an object, with its end. -/
def prettyMembers (depth : Nat) : List (String × Json) → List Char
  | [] => newline depth ++ ['\x7d']
  | (key, value) :: members =>
    newline (depth + 1) ++ stringChars key ++ ':' :: ' ' :: value.prettyChars (depth + 1)
      ++ match members with
        | [] => newline depth ++ ['\x7d']
        | _ :: _ => ',' :: prettyMembers depth members

end

/-- The pretty form of a value. -/
def pretty (value : Json) : String := String.ofList (value.prettyChars 0)

end NodeView.Json
