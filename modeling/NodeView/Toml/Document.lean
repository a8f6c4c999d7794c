import NodeView.Toml.Statement
/-!
# NodeView.Toml.Document

From a text to the TOML document it writes: a table.

The statements are read first and carried out one after the other. Keys are put into the table
that was opened last; before any header that is the document itself.
-/

namespace NodeView.Toml

/-- A document as far as it was read: its parts, and the steps to the table that is open. -/
structure Draft where
  parts : Parts := []
  path : List String := []

/-- Carries out a statement, if that is allowed where it stands. -/
def Draft.step (draft : Draft) : Statement → Option Draft
  | .assign key value => do
    let parts ← draft.parts.descend .parent (fun _ => Parts.assign key value) draft.path .header
    return { draft with parts }
  | .table key => do return ⟨← draft.parts.openTable key, key.steps⟩
  | .element key => do return ⟨← draft.parts.openElement key, key.steps⟩

/-- A text without the mark of its byte order, if it starts with one. -/
def skipMark : List Char → List Char
  | '\ufeff' :: rest => rest
  | text => text

/-- The members of the document that a text writes, in ascending order of keys. -/
def parseChars (text : List Char) : Option (List (String × Toml)) := do
  let statements ← readStatements (skipMark text)
  let draft ← statements.foldlM Draft.step {}
  return membersOf draft.parts

/-- The members of the document that a text writes, in ascending order of keys. -/
def parse (text : String) : Option (List (String × Toml)) := parseChars text.toList

end NodeView.Toml
