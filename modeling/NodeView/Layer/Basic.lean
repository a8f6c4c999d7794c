import NodeView.Decimal.Extended
import NodeView.Keyed
import NodeView.Text.Quoted
/-!
# NodeView.Layer.Basic

Layers of settings.

A source of settings gives a layer: a table of entries, which may be tables themselves. A layer
is laid over an older one; where both have a table under a key the tables are laid over each
other, and elsewhere the newer entry stands. Every entry keeps where it was given, so that a
fault in it can be told where to look.
-/

namespace NodeView

/-- Where an entry was given. -/
inductive Origin where
  /-- Nowhere: it is a default. -/
  | defaults
  /-- In a file, which goes by this path. -/
  | file (path : String)
  /-- In the environment. -/
  | environment
  deriving DecidableEq, Repr

namespace Origin

/-- How a message names an origin. -/
def describe : Origin → String
  | .defaults => "defaults"
  | .file path => path ++ " TOML file"
  | .environment => "`NODE_READ_` environment variable(s)"

/-- How an origin spells the place of an entry. -/
def spell (origin : Origin) (place : List String) : String :=
  match origin with
  | .environment => String.intercalate "." (place.map String.toUpper)
  | _ => String.intercalate "." ("default" :: place)

end Origin

/-- An entry without parts. -/
inductive Scalar where
  | text (s : String)
  | letter (c : Char)
  | bool (b : Bool)
  /-- A whole number from a source whose whole numbers have signs. -/
  | signed (n : Int)
  /-- A whole number from a source that tells apart numbers without a sign. -/
  | unsigned (n : Nat)
  | real (x : Extended)
  deriving DecidableEq

/-- How a message names a scalar that stands where something else was expected. -/
def Scalar.describe : Scalar → String
  | .text s => "string " ++ Text.quoted s
  | .letter c => "string " ++ Text.quoted (String.singleton c)
  | .bool b => "bool " ++ (if b then "true" else "false")
  | .signed n => "signed int `" ++ toString n ++ "`"
  | .unsigned n => "unsigned int `" ++ toString n ++ "`"
  | .real x => "float `" ++ x.text ++ "`"

/-- An entry of a layer. Tables list their members in ascending order of keys. -/
inductive Entry where
  | scalar (origin : Origin) (value : Scalar)
  | list (origin : Origin) (items : List Entry)
  | table (origin : Origin) (members : List (String × Entry))

/-- A layer: entries in ascending order of their keys. -/
abbrev Layer := List (String × Entry)

namespace Entry

instance : Inhabited Entry := ⟨.table .defaults []⟩

/-- Where an entry was given. -/
def origin : Entry → Origin
  | .scalar origin _ => origin
  | .list origin _ => origin
  | .table origin _ => origin

/-- How a message names an entry that stands where something else was expected. -/
def describe : Entry → String
  | .scalar _ value => value.describe
  | .list _ _ => "sequence"
  | .table _ _ => "map"

mutual

/-- An entry laid over an older one. Two tables make one that was given where the newer was. -/
def overlay : (newer older : Entry) → Entry
  | .table origin newer, .table _ older => .table origin (overlayLayer newer older)
  | newer, _ => newer

/-- A layer laid over an older one. -/
def overlayLayer : (newer older : List (String × Entry)) → List (String × Entry)
  | [], older => older
  | (key, entry) :: newer, older =>
    let merged :=
      match Keyed.lookup? key older with
      | some other => entry.overlay other
      | none => entry
    overlayLayer newer (Keyed.insert key merged older)

end

/-- The layer that holds one entry at a place below tables. -/
def nest (origin : Origin) (entry : Entry) : (place : List String) → Layer
  | [] => []
  | [key] => [(key, entry)]
  | key :: place => [(key, .table origin (nest origin entry place))]

end Entry

/-- A layer laid over an older one. -/
def Layer.overlay (newer older : Layer) : Layer := Entry.overlayLayer newer older

end NodeView
