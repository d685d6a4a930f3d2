/-!
# Kinds of types

Every named type is of one of six kinds. What can be given to a field is of an input kind, what a
field can answer of an output kind; scalar and enum types are both.
-/

set_option autoImplicit false

namespace SchemaGraft

/-- The kinds of named types. -/
inductive TypeKind where
  | scalar
  | object
  | interface
  | union
  | enum
  | inputObject
  deriving DecidableEq

namespace TypeKind

/-- Whether values of a kind can be arguments and input fields. -/
def isInput : TypeKind → Bool
  | scalar | enum | inputObject => true
  | object | interface | union => false

/-- Whether fields can have values of a kind. -/
def isOutput : TypeKind → Bool
  | inputObject => false
  | scalar | object | interface | union | enum => true

/-- What reports call a type of a kind. -/
def describe : TypeKind → String
  | scalar => "a scalar type"
  | object => "an object type"
  | interface => "an interface type"
  | union => "a union type"
  | enum => "an enum type"
  | inputObject => "an input object type"

end TypeKind

end SchemaGraft
