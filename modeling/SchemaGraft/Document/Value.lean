import SchemaGraft.Node
import SchemaGraft.Text.Quoted

/-!
# Values

The values that are written in documents: as default values and as arguments of directives. Numbers
keep the text they were written with.

`Value.print` writes a value, `Value.same` compares two of them without regard to the places they
were read from.
-/

set_option autoImplicit false

namespace SchemaGraft

/-- A value as it is written in a document. -/
inductive Value where
  | null
  | enumValue (name : Name)
  | variableReference (name : Name)
  /-- A string, given by the text it stands for. -/
  | string (text : String)
  | float (digits : String)
  | int (digits : String)
  | boolean (value : Bool)
  | list (items : List (Node Value))
  | object (fields : List (Name × Node Value))

namespace Value

/-! ## Printing -/

mutual

/-- The text of a value. -/
def print : Value → String
  | null => "null"
  | enumValue name => name.text
  | variableReference name => "$" ++ name.text
  | string text => Text.quote text
  | float digits => digits
  | int digits => digits
  | boolean value => if value then "true" else "false"
  | list items => "[" ++ printItems items ++ "]"
  | object fields => "\x7b" ++ printFields fields ++ "\x7d"

/-- The texts of the items of a list. -/
def printItems : List (Node Value) → String
  | [] => ""
  | [⟨_, _, item⟩] => print item
  | ⟨_, _, item⟩ :: rest => print item ++ ", " ++ printItems rest

/-- The texts of the fields of an object. -/
def printFields : List (Name × Node Value) → String
  | [] => ""
  | [(name, ⟨_, _, value⟩)] => name.text ++ ": " ++ print value
  | (name, ⟨_, _, value⟩) :: rest => name.text ++ ": " ++ print value ++ ", " ++ printFields rest

end

/-! ## Equality -/

mutual

/-- Whether two values are equal. -/
def same : Value → Value → Bool
  | null, null => true
  | enumValue left, enumValue right => left == right
  | variableReference left, variableReference right => left == right
  | string left, string right => left == right
  | float left, float right => left == right
  | int left, int right => left == right
  | boolean left, boolean right => left == right
  | list left, list right => sameItems left right
  | object left, object right => sameFields left right
  | _, _ => false

/-- Whether two lists have equal items in the same order. -/
def sameItems : List (Node Value) → List (Node Value) → Bool
  | [], [] => true
  | ⟨identity, _, left⟩ :: lefts, right :: rights =>
    (identity == right.identity || same left right.value) && sameItems lefts rights
  | _, _ => false

/-- Whether two objects have equal fields in the same order. -/
def sameFields : List (Name × Node Value) → List (Name × Node Value) → Bool
  | [], [] => true
  | (leftName, ⟨identity, _, left⟩) :: lefts, (rightName, right) :: rights =>
    leftName == rightName && (identity == right.identity || same left right.value) &&
      sameFields lefts rights
  | _, _ => false

end

instance : BEq Value := ⟨same⟩

end Value

end SchemaGraft
