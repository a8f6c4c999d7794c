import NodeView.Layer.Basic
import NodeView.Settings.Basic
/-!
# NodeView.Settings.OfLayer

Settings from an entry of a layer.

A table gives settings by key, in ascending order of keys; keys that name none are passed over.
A list gives them by position, may be short, and what it has too much is passed over. A fault
names the place of the entry at fault, in a list by its index, and where that was given.
-/

namespace NodeView.Settings

/-- What is wrong with an entry. -/
inductive EntryFault where
  /-- It is of the wrong kind. -/
  | kind (found : Entry) (expected : String)
  /-- It is a number out of range. -/
  | range (found : Entry) (expected : String)
  /-- It is a name that is none of those to choose from. -/
  | name (found : String) (names : List String)
  /-- It is a table without a key where one key should name a choice. -/
  | empty
  /-- It is a text that is no socket address. -/
  | address

/-- Why a layer does not give settings. -/
structure LayerFault where
  fault : EntryFault
  /-- The keys and indices that lead to the entry at fault. -/
  place : List String
  /-- Where the entry was given. -/
  origin : Origin

/-- The wording of what is wrong with an entry. -/
def EntryFault.message : EntryFault → String
  | .kind found expected =>
    "invalid type: found " ++ found.describe ++ ", expected " ++ expected
  | .range found expected => "invalid value " ++ found.describe ++ ", expected " ++ expected
  | .name found names =>
    "unknown variant: found `" ++ found ++ "`, expected `" ++ listNames names ++ "`"
  | .empty => "invalid type: found map, expected enum"
  | .address => addressMismatch

/-- The wording of a fault. The key of the table that holds all settings comes last. -/
def LayerFault.message (fault : LayerFault) (tableKey : String) : String :=
  fault.fault.message ++ " for key "
    ++ Text.quoted (fault.origin.spell (fault.place ++ [tableKey]))
    ++ " in " ++ fault.origin.describe

/-- What an entry has to be, where something else was found. -/
def expectedEntry : Domain → String
  | .text | .address => "a string"
  | .name title _ => "enum " ++ title
  | .number type _ => type

/-- How an entry that does not fit is reported. -/
def entryFault (setting : Setting) (found : Entry) : Mismatch → EntryFault
  | .kind => .kind found (expectedEntry setting.domain)
  | .range => .range found (expectedEntry setting.domain)
  | .name name names => .name name names
  | .address => .address

/-- Gives a setting with a choice among names the first member of a table: its key is the name,
and its value would have to be nothing, which no entry is. -/
def choiceOfTable (setting : Setting) (place : List String) (origin : Origin) :
    List (String × Entry) → Except LayerFault Assignment
  | [] => .error ⟨.empty, place, origin⟩
  | (name, value) :: _ =>
    let place := place ++ [name]
    match setting.ofString name with
    | .error mismatch => .error ⟨entryFault setting value mismatch, place, value.origin⟩
    | .ok _ => .error ⟨.kind value "unit", place, value.origin⟩

/-- Gives a setting an entry that was found at a place. -/
def assignmentOfEntry (setting : Setting) (place : List String) (entry : Entry) :
    Except LayerFault Assignment :=
  let report : Except Mismatch Assignment → Except LayerFault Assignment :=
    Except.mapError fun mismatch => ⟨entryFault setting entry mismatch, place, entry.origin⟩
  match setting.domain, entry with
  | .name _ _, .table origin members => choiceOfTable setting place origin members
  | .name _ _, .scalar _ (.text s) => report (setting.ofString s)
  | .text, .scalar _ (.text s) | .address, .scalar _ (.text s) => report (setting.ofString s)
  | .text, .scalar _ (.letter c) | .address, .scalar _ (.letter c) =>
    report (setting.ofString (String.singleton c))
  | .number _ _, .scalar _ (.signed n) => report (setting.ofInteger n)
  | .number _ _, .scalar _ (.unsigned n) => report (setting.ofInteger n)
  | _, _ => report (.error .kind)

/-- Gives settings the members of a table. -/
def assignmentsOfTable : List (String × Entry) → Except LayerFault (List Assignment)
  | [] => .ok []
  | (key, entry) :: members =>
    match Setting.ofKey? key with
    | none => assignmentsOfTable members
    | some setting => do
      let assignment ← assignmentOfEntry setting [key] entry
      return assignment :: (← assignmentsOfTable members)

/-- Gives settings the items of a list, one after the other; the first has the given index. -/
def assignmentsOfList (index : Nat) :
    List Setting → List Entry → Except LayerFault (List Assignment)
  | setting :: settings, entry :: entries => do
    let assignment ← assignmentOfEntry setting [toString index] entry
    return assignment :: (← assignmentsOfList (index + 1) settings entries)
  | _, _ => .ok []

/-- The settings that an entry gives. -/
def ofEntry (entry : Entry) : Except LayerFault Settings :=
  match entry with
  | .table _ members => (assignmentsOfTable members).map ofAssignments
  | .list _ items => (assignmentsOfList 0 Setting.all items).map ofAssignments
  | .scalar origin _ => .error ⟨.kind entry expectedRoot, [], origin⟩

end NodeView.Settings
