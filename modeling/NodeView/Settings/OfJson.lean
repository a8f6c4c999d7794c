import NodeView.Settings.JsonFault
/-!
# NodeView.Settings.OfJson

Settings from a JSON value.

An object gives settings by key, in the order its members are listed; keys that name none are
passed over. An array gives them by position and may be short. A choice among names is a
string, or an object whose only key is the name and whose value is `null`.
-/

namespace NodeView.Settings

/-- Gives a setting with a choice among names the value of an object. -/
def choiceOfMembers (setting : Setting) :
    List (String × Json) → Except JsonFault Assignment
  | [(name, value)] =>
    match setting.ofString name with
    | .error mismatch => .error (.ofMismatch setting (.string name) mismatch)
    | .ok assignment =>
      if value.isNull then .ok assignment else .error (.wrongKind value "unit")
  | _ => .error .notOneMember

/-- Gives a setting a JSON value. -/
def assignmentOfJson (setting : Setting) (value : Json) : Except JsonFault Assignment :=
  let report := Except.mapError (JsonFault.ofMismatch setting value)
  match setting.domain, value with
  | .name _ _, .object members => choiceOfMembers setting members
  | _, .string s => report (setting.ofString s)
  | _, .integer n => report (setting.ofInteger n)
  | domain, value => .error (.wrongKind value (JsonFault.expected domain))

/-- Gives settings the members of an object. -/
def assignmentsOfMembers : List (String × Json) → Except JsonFault (List Assignment)
  | [] => .ok []
  | (key, value) :: members =>
    match Setting.ofKey? key with
    | none => assignmentsOfMembers members
    | some setting => do
      let assignment ← assignmentOfJson setting value
      return assignment :: (← assignmentsOfMembers members)

/-- Gives settings the elements of an array, one after the other. -/
def assignmentsOfItems : List Setting → List Json → Except JsonFault (List Assignment)
  | setting :: settings, item :: items => do
    let assignment ← assignmentOfJson setting item
    return assignment :: (← assignmentsOfItems settings items)
  | _, _ => .ok []

/-- The settings that a JSON value holds. -/
def ofJson (value : Json) : Except JsonFault Settings :=
  match value with
  | .object members => (assignmentsOfMembers members).map ofAssignments
  | .array items => do
    let assignments ← assignmentsOfItems Setting.all items
    if Setting.all.length < items.length then throw (.tooManyElements items.length)
    return ofAssignments assignments
  | _ => .error (.wrongKind value expectedRoot)

end NodeView.Settings
