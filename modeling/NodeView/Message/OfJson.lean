import NodeView.Json.Value
import NodeView.Text.Scan
import NodeView.Wire.Field
/-!
# NodeView.Message.OfJson

From a JSON value in normal form to the fields of a message.

Members are taken in the order in which they are listed, and the first that does not fit its
field decides. A key that names no field is passed over; two members under the two spellings of
one field are one too many. An integer may be a number or a string of digits, a message must be
an object, and a map an object of truth values.
-/

namespace NodeView.Message

open Wire (Field)

/-! ### Faults -/

/-- Why a value does not fit its place. -/
inductive DataFault where
  /-- A value of the wrong shape. -/
  | wrongShape (found : Json) (expected : String)
  /-- A field is given under both of its spellings. -/
  | duplicateField (jsonName : String)
  /-- The text of an integer is empty. -/
  | noDigits
  /-- The text of an integer holds something other than digits. -/
  | invalidDigit
  /-- The text of an integer writes a number that is too large. -/
  | tooLarge
  /-- The text of an integer writes a number that is too small. -/
  | tooSmall
  /-- Neither a text nor a number that fits an integer field. -/
  | noInteger

/-- The wording of a fault. -/
def DataFault.message : DataFault → String
  | .wrongShape found expected => "invalid type: " ++ found.describe ++ ", expected " ++ expected
  | .duplicateField jsonName => "duplicate field `" ++ jsonName ++ "`"
  | .noDigits => "cannot parse integer from empty string"
  | .invalidDigit => "invalid digit found in string"
  | .tooLarge => "number too large to fit in target type"
  | .tooSmall => "number too small to fit in target type"
  | .noInteger => "data did not match any variant of untagged enum Content"

/-! ### Integers -/

/-- Reads digits of a number of at most `bound`, behind digits that wrote `n`. The first
character that is no digit or takes the number over the bound decides. -/
def magnitudeOfText (bound : Nat) (beyond : DataFault) (n : Nat) :
    List Char → Except DataFault Nat
  | [] => .ok n
  | c :: rest =>
    if c.isDigit then
      let next := 10 * n + Text.digitValue c
      if bound < next then .error beyond else magnitudeOfText bound beyond next rest
    else .error .invalidDigit

/-- Reads the text of an integer between `low` and `high`: digits behind an optional sign, of
which the minus is only there for types with negative numbers. -/
def integerOfText (low high : Int) : List Char → Except DataFault Int
  | [] => .error .noDigits
  | ['+'] | ['-'] => .error .invalidDigit
  | '+' :: digits => (magnitudeOfText high.toNat .tooLarge 0 digits).map fun n => (n : Int)
  | '-' :: digits =>
    if low < 0 then (magnitudeOfText (-low).toNat .tooSmall 0 digits).map fun n => -(n : Int)
    else .error .invalidDigit
  | digits => (magnitudeOfText high.toNat .tooLarge 0 digits).map fun n => (n : Int)

/-- Reads an integer between `low` and `high`. -/
def integerOfJson (low high : Int) : Json → Except DataFault Int
  | .string s => integerOfText low high s.toList
  | .integer n => if low ≤ n ∧ n ≤ high then .ok n else .error .noInteger
  | _ => .error .noInteger

/-! ### Fields -/

/-- Reads the value of a field that is no message, no sequence and no map. -/
def scalarOfJson (spec : FieldSpec) (value : Json) : Except DataFault (List Field) :=
  match spec.kind with
  | .text =>
    match value with
    | .string s => .ok [.text spec.number s]
    | _ => .error (.wrongShape value "a string")
  | .int64 =>
    (integerOfJson (-2 ^ 63) (2 ^ 63 - 1) value).map fun n => [.int64 spec.number (Int64.ofInt n)]
  | .uint64 =>
    (integerOfJson 0 (2 ^ 64 - 1) value).map fun n => [.uint64 spec.number (UInt64.ofNat n.toNat)]
  | .uint32 =>
    (integerOfJson 0 (2 ^ 32 - 1) value).map fun n => [.uint32 spec.number (UInt32.ofNat n.toNat)]
  | .message type => .error (.wrongShape value ("struct " ++ type.fullName))
  | .repeated _ => .error (.wrongShape value "a sequence")
  | .flags => .error (.wrongShape value "a map")

/-- Reads the members of a map. -/
def entriesOfMembers (number : Nat) : List (String × Json) → Except DataFault (List Field)
  | [] => .ok []
  | (key, .bool flag) :: members =>
    (entriesOfMembers number members).map (.entry number key flag :: ·)
  | (_, value) :: _ => .error (.wrongShape value "a boolean")

mutual

/-- Reads a value that stands for a message of this type. -/
def fieldsOfJson (type : MessageType) : Json → Except DataFault (List Field)
  | .object members => fieldsOfMembers type [] members
  | value => .error (.wrongShape value ("struct " ++ type.fullName))

/-- Reads the members of a message of this type; `seen` holds the numbers of the fields that
were given before. -/
def fieldsOfMembers (type : MessageType) (seen : List Nat) :
    List (String × Json) → Except DataFault (List Field)
  | [] => .ok []
  | (key, value) :: members =>
    match type.declaredFieldByKey? key with
    | none => fieldsOfMembers type seen members
    | some spec =>
      if spec.number ∈ seen then .error (.duplicateField spec.jsonName)
      else
        match fieldsOfValue spec value with
        | .error fault => .error fault
        | .ok fields =>
          match fieldsOfMembers type (spec.number :: seen) members with
          | .error fault => .error fault
          | .ok others => .ok (fields ++ others)

/-- Reads the value of a field. -/
def fieldsOfValue (spec : FieldSpec) : Json → Except DataFault (List Field)
  | .object members =>
    match spec.kind with
    | .message type =>
      (fieldsOfMembers type [] members).map fun fields => [.message spec.number fields]
    | .flags => entriesOfMembers spec.number members
    | _ => scalarOfJson spec (.object members)
  | .array items =>
    match spec.kind with
    | .repeated type => fieldsOfItems spec.number type items
    | _ => scalarOfJson spec (.array items)
  | value => scalarOfJson spec value

/-- Reads the elements of a sequence of messages. -/
def fieldsOfItems (number : Nat) (type : MessageType) :
    List Json → Except DataFault (List Field)
  | [] => .ok []
  | item :: items =>
    match fieldsOfJson type item with
    | .error fault => .error fault
    | .ok fields =>
      match fieldsOfItems number type items with
      | .error fault => .error fault
      | .ok others => .ok (.message number fields :: others)

end

end NodeView.Message
