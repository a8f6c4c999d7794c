import NodeView.Decimal.Shortest
import NodeView.Keyed
import NodeView.Text.Quoted
/-!
# NodeView.Json.Value

JSON values.

* A number is an integer when it was written as one and fits 64 bits, signed or unsigned, and
  a binary64 number otherwise.
* The members of an object are a list. Reading a text yields them in ascending order of keys,
  each key once; a value that is to be written may list them in another order (`sortKeys`
  brings them into the first).
-/

namespace NodeView

/-- A JSON value. -/
inductive Json where
  | null
  | bool (b : Bool)
  | integer (n : Int)
  | float (x : Binary64)
  | string (s : String)
  | array (items : List Json)
  | object (members : List (String × Json))

namespace Json

instance : Inhabited Json := ⟨.null⟩

/-- How floating-point numbers are shown: plainly from 1e-5 up to 1e16, with at least one digit
behind the point, and with an exponent mark elsewhere. -/
def floatLayout : Layout := ⟨-5, 16, true⟩

/-- How a message names a value that stands where another was expected. -/
def describe : Json → String
  | .null => "null"
  | .bool b => "boolean `" ++ (if b then "true" else "false") ++ "`"
  | .integer n => "integer `" ++ toString n ++ "`"
  | .float x => "floating point `" ++ floatLayout.text x ++ "`"
  | .string s => "string " ++ Text.quoted s
  | .array _ => "sequence"
  | .object _ => "map"

/-- Whether a value is `null`. -/
def isNull : Json → Bool
  | .null => true
  | _ => false

/-- The value of a member of an object. -/
def member? (key : String) : Json → Option Json
  | .object members => Keyed.lookup? key members
  | _ => none

mutual

/-- Brings the members of every object into ascending order of their keys. -/
def sortKeys : Json → Json
  | .array items => .array (sortItems items)
  | .object members => .object (Keyed.ofList (sortMembers members))
  | value => value

/-- Brings the objects inside some values into order. -/
def sortItems : List Json → List Json
  | [] => []
  | item :: items => item.sortKeys :: sortItems items

/-- Brings the objects inside some members into order. -/
def sortMembers : List (String × Json) → List (String × Json)
  | [] => []
  | (key, value) :: members => (key, value.sortKeys) :: sortMembers members

end

mutual

/-- Every object lists its members in ascending order of keys, each key once. -/
def Sorted : Json → Prop
  | .array items => SortedItems items
  | .object members => Keyed.Sorted members ∧ SortedMembers members
  | _ => True

/-- The objects inside some values are in order. -/
def SortedItems : List Json → Prop
  | [] => True
  | item :: items => item.Sorted ∧ SortedItems items

/-- The objects inside some members are in order. -/
def SortedMembers : List (String × Json) → Prop
  | [] => True
  | (_, value) :: members => value.Sorted ∧ SortedMembers members

end

end Json

end NodeView
