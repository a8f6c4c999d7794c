import NodeView.Decimal.Extended
import NodeView.Keyed
/-!
# NodeView.Toml.Value

The values of a TOML document.
-/

namespace NodeView

/-- A value of a TOML document. Tables list their members in ascending order of keys. -/
inductive Toml where
  | string (s : String)
  | integer (n : Int)
  | float (x : Extended)
  | bool (b : Bool)
  /-- A date, a time or both, as it is written. -/
  | moment (s : String)
  | array (items : List Toml)
  | table (members : List (String × Toml))

instance : Inhabited Toml := ⟨.table []⟩

end NodeView
