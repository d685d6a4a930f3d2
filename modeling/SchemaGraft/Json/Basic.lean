import SchemaGraft.Json.Number

/-!
# JSON values

The values that stand for enum values inside an executor, and the values in which requests and
answers are written. Objects keep the order of their fields and numbers the digits they were written
with, so that a value that is only passed on comes out as it went in.

`Json.same` is the equality of such values: the order of the fields of an object does not count, and
numbers are compared by what they stand for.
-/

set_option autoImplicit false

namespace SchemaGraft

/-- A JSON value. -/
inductive Json where
  | null
  | bool (value : Bool)
  | number (value : Number)
  | string (text : String)
  | array (items : List Json)
  /-- The fields in order; no two have the same name. -/
  | object (fields : List (String × Json))
  deriving Inhabited

namespace Json

/-- A number that counts something. -/
def count (n : Nat) : Json := .number (.count n)

/-- Null for a missing thing. -/
def ofOption {α : Type} (encode : α → Json) : Option α → Json
  | none => .null
  | some value => encode value

/-- An array of the images of a list. -/
def list {α : Type} (encode : α → Json) (items : List α) : Json := .array (items.map encode)

/-- The value of a field of an object. -/
def field? (name : String) : Json → Option Json
  | .object fields => fields.lookup name
  | _ => none

/-- The value of a field, null if it is missing. -/
def field (name : String) (value : Json) : Json := (value.field? name).getD .null

/-- The text of a string. -/
def text? : Json → Option String
  | .string text => some text
  | _ => none

/-- The items of an array. -/
def items? : Json → Option (List Json)
  | .array items => some items
  | _ => none

/-- The value of a truth value. -/
def isTrue : Json → Bool
  | .bool value => value
  | _ => false

/-- The value of a number that counts something. -/
def count? : Json → Option Nat
  | .number value => value.count?
  | _ => none

/-- Replaces the value of a field, or adds the field at the end. -/
def setField (name : String) (value : Json) : List (String × Json) → List (String × Json)
  | [] => [(name, value)]
  | field :: rest =>
    if field.1 == name then (name, value) :: rest else field :: setField name value rest

/-! ## Equality -/

mutual

/-- Whether two values are equal; the order of the fields of an object does not count. -/
def same : Json → Json → Bool
  | .null, .null => true
  | .bool left, .bool right => left == right
  | .number left, .number right => left == right
  | .string left, .string right => left == right
  | .array left, .array right => sameItems left right
  | .object left, .object right => left.length == right.length && sameFields left right
  | _, _ => false

/-- Whether two lists have equal items in the same order. -/
def sameItems : List Json → List Json → Bool
  | [], [] => true
  | left :: lefts, right :: rights => same left right && sameItems lefts rights
  | _, _ => false

/-- Whether every field of the first list has an equal one in the second. -/
def sameFields : List (String × Json) → List (String × Json) → Bool
  | [], _ => true
  | (name, value) :: rest, others =>
    (match others.lookup name with
      | some other => same value other
      | none => false) && sameFields rest others

end

instance : BEq Json := ⟨same⟩

end Json

end SchemaGraft
