import NodeView.Json.Fault
import NodeView.Settings.Basic
/-!
# NodeView.Settings.JsonFault

Why JSON does not hold settings.
-/

namespace NodeView.Settings

/-- Why JSON does not hold settings. -/
inductive JsonFault where
  /-- The text is not JSON, or not as far as it was read. -/
  | text (fault : Json.Fault)
  /-- A value of the wrong kind. Of an array or an object only that it is one was read. -/
  | wrongKind (found : Json) (expected : String)
  /-- A whole number that is out of range. -/
  | outOfRange (n : Int) (expected : String)
  /-- A name that is none of those to choose from. -/
  | unknownName (name : String) (names : List String)
  /-- An object that should name a choice has not one member but none or several. -/
  | notOneMember
  /-- An array has more elements than there are settings. -/
  | tooManyElements (count : Nat)
  /-- A setting is given twice. -/
  | duplicate (setting : Setting)
  /-- A text is no socket address. -/
  | address

namespace JsonFault

/-- The wording of a fault. -/
def message : JsonFault → String
  | .text fault => fault.message
  | .wrongKind found expected => "invalid type: " ++ found.describe ++ ", expected " ++ expected
  | .outOfRange n expected => "invalid value: integer `" ++ toString n ++ "`, expected " ++ expected
  | .unknownName name names =>
    "unknown variant `" ++ name ++ "`, expected " ++ listNames names
  | .notOneMember => "invalid value: map, expected map with a single key"
  | .tooManyElements count =>
    "invalid length " ++ toString count ++ ", expected fewer elements in array"
  | .duplicate setting => "duplicate field `" ++ setting.key ++ "`"
  | .address => addressMismatch

/-- The class of a fault: a text that is wrong, a text that ends too early, or a value that
does not fit. -/
def category : JsonFault → String
  | .text fault => if fault.isEnd then "eof" else "syntax"
  | _ => "data"

/-- What a value has to be, where something else was found. -/
def expected : Domain → String
  | .text | .address => "a string"
  | .name _ _ => "string or map"
  | .number type _ => type

/-- How a value that does not fit is reported. -/
def ofMismatch (setting : Setting) (found : Json) : Mismatch → JsonFault
  | .kind => .wrongKind found (expected setting.domain)
  | .range =>
    match found with
    | .integer n => .outOfRange n (expected setting.domain)
    | _ => .wrongKind found (expected setting.domain)
  | .name name names => .unknownName name names
  | .address => .address

end JsonFault

end NodeView.Settings
