import NodeView.Layer.EnvironmentValue
/-!
# NodeView.Layer.Environment

The layer that environment variables give.

A variable counts if its name starts with a fixed word in letters of either case. What follows
is the place of its value below one table, in lower case and with two underscores between
steps. A name with an empty step names no place. Of two variables for one place the later one
stands.
-/

namespace NodeView.Environment

/-- The word that the names of all variables start with. -/
def leadingWord : List Char := "NODE_READ_".toList

/-- The table that all places are below. -/
def tableKey : String := "grpc"

/-- A text with a point in place of each pair of underscores, from the left. -/
def replacePairs : List Char → List Char
  | '_' :: '_' :: rest => '.' :: replacePairs rest
  | c :: rest => c :: replacePairs rest
  | [] => []

/-- The pieces of a text between points. -/
def splitPoints : List Char → List (List Char)
  | [] => [[]]
  | '.' :: rest => [] :: splitPoints rest
  | c :: rest =>
    match splitPoints rest with
    | piece :: pieces => (c :: piece) :: pieces
    | [] => [[c]]

/-- The name behind the fixed word, if a name starts with it. -/
def afterWord? (name : List Char) : Option (List Char) :=
  if (name.take leadingWord.length).map Char.toUpper = leadingWord then
    some (name.drop leadingWord.length)
  else none

/-- The place that the name of a variable names. -/
def place? (name : String) : Option (List String) :=
  match afterWord? (Text.trimChars name.toList) with
  | none => none
  | some rest =>
    let steps := splitPoints ((replacePairs rest).map Char.toLower)
    if steps.contains [] then none else some (tableKey :: steps.map String.ofList)

/-- The layer that variables give, with names and texts in the order in which they count. -/
def layer (environment : List (String × String)) : Layer :=
  environment.foldl
    (fun layer (name, text) =>
      match place? name with
      | none => layer
      | some place =>
        Layer.overlay (Entry.nest .environment (EnvironmentValue.entryOf text) place) layer)
    []

end NodeView.Environment
