import NodeView.Toml.Value
/-!
# NodeView.Toml.Table

Tables while a TOML document is read.

What may still be put into a table depends on how it came to be. A table with a header of its
own gets no second header and is not reached by dotted keys from above. One that only lies above
others may get its header later. One that lies above a dotted key stays open to further dotted
keys, and gets no header.
-/

namespace NodeView.Toml

/-- How a table came to be. -/
inductive Standing where
  /-- By a header of its own. -/
  | header
  /-- By a header of a table below it. -/
  | parent
  /-- By a dotted key of something in it. -/
  | dotted
  deriving DecidableEq, Repr

/-- Something in a table while the document is read. -/
inductive Part where
  /-- A value, which is complete. -/
  | value (v : Toml)
  /-- A table. -/
  | table (standing : Standing) (members : List (String × Part))
  /-- Tables with one header each, the last one first. Only the last one still grows. -/
  | tables (elements : List Part)

/-- What a table holds, in ascending order of keys. -/
abbrev Parts := List (String × Part)

/-- A key of one or more steps. -/
structure Key where
  /-- The steps before the last one. -/
  above : List String
  last : String
  deriving DecidableEq, Repr

/-- All steps of a key. -/
def Key.steps (key : Key) : List String := key.above ++ [key.last]

namespace Parts

/-- Changes the table at a path below a table of the given standing, if the path leads to one;
tables that are missing come to be as `missing` says. A dotted key does not lead through a table
that has a header. -/
def descend (missing : Standing) (change : Standing → Parts → Option Parts) :
    (path : List String) → (standing : Standing) → Parts → Option Parts
  | [], standing, parts => change standing parts
  | step :: path, _, parts =>
    match Keyed.lookup? step parts with
    | none => do
      let inner ← descend missing change path missing []
      return Keyed.insert step (.table missing inner) parts
    | some (.table standing inner) =>
      if missing = .dotted ∧ standing = .header then none
      else do
        let inner ← descend missing change path standing inner
        return Keyed.insert step (.table standing inner) parts
    | some (.tables (.table standing inner :: others)) => do
      let inner ← descend missing change path standing inner
      return Keyed.insert step (.tables (.table standing inner :: others)) parts
    | some _ => none

/-- Puts a value under a key of a table. The table that takes the value has to be the one that
the key is written in, or one that dotted keys made. -/
def assign (key : Key) (value : Toml) (parts : Parts) : Option Parts :=
  descend .dotted
    (fun standing parts =>
      if (standing = .dotted) = (key.above = []) then none
      else if (Keyed.lookup? key.last parts).isSome then none
      else some (Keyed.insert key.last (.value value) parts))
    key.above .header parts

/-- Opens the table of a header. -/
def openTable (key : Key) (parts : Parts) : Option Parts :=
  descend .parent
    (fun _ parts =>
      match Keyed.lookup? key.last parts with
      | none => some (Keyed.insert key.last (.table .header []) parts)
      | some (.table .parent inner) => some (Keyed.insert key.last (.table .header inner) parts)
      | some _ => none)
    key.above .header parts

/-- Opens one more table of an array of tables. -/
def openElement (key : Key) (parts : Parts) : Option Parts :=
  descend .parent
    (fun _ parts =>
      match Keyed.lookup? key.last parts with
      | none => some (Keyed.insert key.last (.tables [.table .header []]) parts)
      | some (.tables elements) =>
        some (Keyed.insert key.last (.tables (.table .header [] :: elements)) parts)
      | some _ => none)
    key.above .header parts

end Parts

/-! ### What was read -/

mutual

/-- The value that a part is. -/
def Part.toToml : Part → Toml
  | .value v => v
  | .table _ members => .table (membersOf members)
  | .tables elements => .array (elementsOf elements).reverse

/-- The values that some parts are. -/
def elementsOf : List Part → List Toml
  | [] => []
  | part :: parts => part.toToml :: elementsOf parts

/-- The members that the parts of a table are. -/
def membersOf : List (String × Part) → List (String × Toml)
  | [] => []
  | (key, part) :: parts => (key, part.toToml) :: membersOf parts

end

end NodeView.Toml
