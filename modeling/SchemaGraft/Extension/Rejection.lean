import SchemaGraft.Report
import SchemaGraft.Schema.Basic

/-!
# Rejections

Extending a schema stops at the first thing that is wrong with the document. A `Rejection` says what
it is and where; `message` words it and `diagnosis` is what a report shows of it.
-/

set_option autoImplicit false

namespace SchemaGraft

/-- What may stand at a reference to a type. -/
inductive ExpectedKind where
  | object
  | interface
  | input
  | output
  deriving DecidableEq

namespace ExpectedKind

/-- Whether types of a kind may stand at a reference. -/
def accepts : ExpectedKind → TypeKind → Bool
  | object, kind => kind == .object
  | interface, kind => kind == .interface
  | input, kind => kind.isInput
  | output, kind => kind.isOutput

/-- What reports call the types that may stand at a reference. -/
def describe : ExpectedKind → String
  | object => "an object type"
  | interface => "an interface type"
  | input => "an input type"
  | output => "an output type"

end ExpectedKind

/-- Where a type is referred to. -/
inductive ReferenceSite where
  /-- The type of a field. -/
  | field (type field : Name)
  /-- The type of an argument of a field. -/
  | argument (type field argument : Name)
  /-- The type of a field of an input object. -/
  | inputField (type field : Name)
  /-- The type of an argument of a directive. -/
  | directiveArgument (directive argument : Name)
  /-- The list of interfaces of a type. -/
  | implementedInterface (type : Name)
  /-- The list of members of a union. -/
  | unionMember (type : Name)

namespace ReferenceSite

/-- What reports call a place where a type is referred to. -/
def describe : ReferenceSite → String
  | field type name => "field `" ++ type.text ++ "." ++ name.text ++ "`"
  | argument type owner name =>
    "argument `" ++ type.text ++ "." ++ owner.text ++ "(" ++ name.text ++ ":)`"
  | inputField type name => "input field `" ++ type.text ++ "." ++ name.text ++ "`"
  | directiveArgument directive name =>
    "argument `@" ++ directive.text ++ "(" ++ name.text ++ ":)`"
  | implementedInterface type => "the implements list of `" ++ type.text ++ "`"
  | unionMember type => "union `" ++ type.text ++ "`"

/-- The names that tell a place. -/
def names : ReferenceSite → List Name
  | field type name => [type, name]
  | argument type owner name => [type, owner, name]
  | inputField type name => [type, name]
  | directiveArgument directive name => [directive, name]
  | implementedInterface type => [type]
  | unionMember type => [type]

end ReferenceSite

/-- What an extension finds in place of an object type that it could extend. -/
inductive ExtensionObstacle where
  /-- The type to be extended is of another kind. -/
  | typeOfKind (kind : TypeKind)
  /-- The extension uses the word for another kind. -/
  | otherKeyword (keyword : ExtensionKeyword)
  deriving DecidableEq

/-- What reports call what was found in place of an object type. -/
def ExtensionObstacle.describe : ExtensionObstacle → String
  | typeOfKind kind => kind.describe
  | otherKeyword keyword => keyword.describe

/-- Why a document cannot extend a schema. -/
inductive Rejection where
  | typeAlreadyExists (name : Name) (location previous : Option Location)
  | invalidExtensionTarget (name : Name) (location : Option Location) (found : ExtensionObstacle)
  | unknownTargetType (name : Name) (location : Option Location)
  | duplicateField (type field : Name) (location previous : Option Location)
  | duplicateInterface (type interface : Name) (location : Option Location)
  | unknownType (name : Name) (site : ReferenceSite) (location : Option Location)
  | directiveRedefinition (name : Name) (location previous : Option Location)
  | unexpectedKind (name : Name) (site : ReferenceSite) (location : Option Location)
      (found : TypeKind) (expected : ExpectedKind)

namespace Rejection

/-- The sentence for a rejection. -/
def message : Rejection → String
  | typeAlreadyExists name _ _ => "the type `" ++ name.text ++ "` is defined multiple times"
  | invalidExtensionTarget name _ found =>
    "cannot extend `" ++ name.text ++ "`: only object types can be extended, found " ++
      found.describe
  | unknownTargetType name _ => "cannot extend type `" ++ name.text ++ "` because it does not exist"
  | duplicateField type field _ _ =>
    "duplicate definitions for the `" ++ field.text ++ "` field of type `" ++ type.text ++ "`"
  | duplicateInterface type interface _ =>
    "type `" ++ type.text ++ "` implements interface `" ++ interface.text ++ "` more than once"
  | unknownType name site _ => site.describe ++ " references unknown type `" ++ name.text ++ "`"
  | directiveRedefinition name _ _ =>
    "the directive `@" ++ name.text ++ "` is defined multiple times"
  | unexpectedKind name site _ found expected =>
    site.describe ++ " references `" ++ name.text ++ "`, which is " ++ found.describe ++
      ", but expected " ++ expected.describe

/-- The name of the type, field, interface or directive that a rejection is about. -/
def name : Rejection → Name
  | typeAlreadyExists name _ _ => name
  | invalidExtensionTarget name _ _ => name
  | unknownTargetType name _ => name
  | duplicateField _ field _ _ => field
  | duplicateInterface _ interface _ => interface
  | unknownType name _ _ => name
  | directiveRedefinition name _ _ => name
  | unexpectedKind name _ _ _ _ => name

/-- The place that a rejection is about. -/
def location : Rejection → Option Location
  | typeAlreadyExists _ location _ => location
  | invalidExtensionTarget _ location _ => location
  | unknownTargetType _ location => location
  | duplicateField _ _ location _ => location
  | duplicateInterface _ _ location => location
  | unknownType _ _ location => location
  | directiveRedefinition _ location _ => location
  | unexpectedKind _ _ location _ _ => location

/-- The place of the earlier definition that a rejection is about, if it is about two. -/
def previous? : Rejection → Option (Option Location)
  | typeAlreadyExists _ _ previous => some previous
  | duplicateField _ _ _ previous => some previous
  | directiveRedefinition _ _ previous => some previous
  | invalidExtensionTarget .. | unknownTargetType .. | duplicateInterface .. | unknownType ..
  | unexpectedKind .. => none

/-- The two labels of a repeated definition. -/
def repetitionLabels (what : String) (location previous : Option Location) : List Label :=
  [⟨previous, "previous definition of `" ++ what ++ "` here"⟩,
    ⟨location, "`" ++ what ++ "` redefined here"⟩]

/-- The remarks that a report makes on a rejection. -/
def labels : Rejection → List Label
  | typeAlreadyExists name location previous => repetitionLabels name.text location previous
  | invalidExtensionTarget _ location found => [⟨location, "found " ++ found.describe⟩]
  | unknownTargetType _ location => [⟨location, "extension of an undefined type"⟩]
  | duplicateField _ field location previous => repetitionLabels field.text location previous
  | duplicateInterface _ interface location =>
    [⟨location, "`" ++ interface.text ++ "` is already implemented"⟩]
  | unknownType name _ location => [⟨location, "`" ++ name.text ++ "` is not defined"⟩]
  | directiveRedefinition name location previous =>
    repetitionLabels ("@" ++ name.text) location previous
  | unexpectedKind name _ location found _ =>
    [⟨location, "`" ++ name.text ++ "` is " ++ found.describe⟩]

/-- The advice that a report gives. -/
def advice : Rejection → Option String
  | typeAlreadyExists .. =>
    some "remove or rename one of the definitions, or use `extend`"
  | _ => none

/-- What there is to say about a rejection. -/
def diagnosis (rejection : Rejection) : Diagnosis :=
  ⟨rejection.location, rejection.message, rejection.labels, rejection.advice⟩

end Rejection

end SchemaGraft
