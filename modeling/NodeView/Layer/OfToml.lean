import NodeView.Layer.Basic
import NodeView.Toml.Document
/-!
# NodeView.Layer.OfToml

The layer that a TOML document gives.
-/

namespace NodeView

/-- The key of the only member of the table that stands for a date or a time. -/
def momentKey : String := "$__toml_private_datetime"

mutual

/-- A value of a document as an entry. -/
def Entry.ofToml (origin : Origin) : Toml → Entry
  | .string s => .scalar origin (.text s)
  | .integer n => .scalar origin (.signed n)
  | .float x => .scalar origin (.real x)
  | .bool b => .scalar origin (.bool b)
  | .moment s => .table origin [(momentKey, .scalar origin (.text s))]
  | .array items => .list origin (entriesOfItems origin items)
  | .table members => .table origin (entriesOfMembers origin members)

/-- Some values as entries. -/
def entriesOfItems (origin : Origin) : List Toml → List Entry
  | [] => []
  | item :: items => Entry.ofToml origin item :: entriesOfItems origin items

/-- The members of a table as entries. -/
def entriesOfMembers (origin : Origin) : List (String × Toml) → List (String × Entry)
  | [] => []
  | (key, value) :: members =>
    (key, Entry.ofToml origin value) :: entriesOfMembers origin members

end

/-- The layer that a document gives. -/
def Layer.ofToml (origin : Origin) (members : List (String × Toml)) : Layer :=
  entriesOfMembers origin members

end NodeView
