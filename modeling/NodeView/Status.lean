import NodeView.Text.Quoted
/-!
# NodeView.Status

How a call that was not answered ended.
-/

namespace NodeView

/-- The kinds of failure a call can end with. -/
inductive StatusCode where
  /-- What the call needs is not there. -/
  | unavailable
  /-- A limit on what may be spent was reached. -/
  | resourceExhausted
  /-- A message was longer than what is taken or sent. -/
  | outOfRange
  /-- A message could not be read. -/
  | internal
  deriving DecidableEq, Repr

namespace StatusCode

/-- The name of a code. -/
def name : StatusCode → String
  | .unavailable => "Unavailable"
  | .resourceExhausted => "ResourceExhausted"
  | .outOfRange => "OutOfRange"
  | .internal => "Internal"

/-- The description of a code. -/
def describe : StatusCode → String
  | .unavailable => "The service is currently unavailable"
  | .resourceExhausted => "Some resource has been exhausted"
  | .outOfRange => "Operation was attempted past the valid range"
  | .internal => "Internal error"

end StatusCode

/-- How a call that was not answered ended. -/
structure Status where
  code : StatusCode
  message : String
  deriving DecidableEq, Repr

/-- The wording of a status; an empty message is left out. -/
def Status.describe (status : Status) : String :=
  "code: '" ++ status.code.describe ++ "'"
    ++ (if status.message = "" then "" else ", message: " ++ Text.quoted status.message)

end NodeView
