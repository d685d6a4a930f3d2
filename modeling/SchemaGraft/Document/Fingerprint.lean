import SchemaGraft.Document.Definition

/-!
# Fingerprints

A fingerprint is what a hash table is told of a definition: a list of marks that says everything
about it but the places it was read from. Equal definitions have the same fingerprint. A mark tells
which of several forms follows, how long a list is before its items come, or a text.
-/

set_option autoImplicit false

namespace SchemaGraft

/-- A piece of a fingerprint. -/
inductive Mark where
  /-- Which of several forms follows. -/
  | form (index : Nat)
  /-- How many items follow. -/
  | count (items : Nat)
  | text (text : String)
  deriving DecidableEq

/-- What a hash table is told of something. -/
abbrev Fingerprint := List Mark

namespace Fingerprint

variable {α : Type}

/-- The fingerprint of a truth value. -/
def ofBool (value : Bool) : Fingerprint := [.form value.toNat]

/-- The fingerprint of something that may be missing. -/
def ofOption (part : α → Fingerprint) : Option α → Fingerprint
  | none => [.form 0]
  | some value => .form 1 :: part value

/-- The fingerprint of a list. -/
def ofList (part : α → Fingerprint) (items : List α) : Fingerprint :=
  .count items.length :: items.flatMap part

/-- The fingerprint of a list of nodes. -/
def ofNodes (part : α → Fingerprint) (nodes : List (Node α)) : Fingerprint :=
  ofList (fun node => part node.value) nodes

/-- The fingerprint of a description. -/
def ofDescription (description : Option String) : Fingerprint :=
  ofOption (fun text => [.text text]) description

end Fingerprint

open Fingerprint

/-- The fingerprint of a name: its text alone. -/
def Name.fingerprint (name : Name) : Fingerprint := [.text name.text]

/-- The fingerprint of a reference to a type. -/
def TypeReference.fingerprint : TypeReference → Fingerprint
  | named name => .form 0 :: name.fingerprint
  | nonNullNamed name => .form 1 :: name.fingerprint
  | list item => .form 2 :: item.fingerprint
  | nonNullList item => .form 3 :: item.fingerprint

/-! ## Values -/

namespace Value

mutual

/-- The fingerprint of a value. -/
def fingerprint : Value → Fingerprint
  | null => [.form 0]
  | enumValue name => .form 1 :: name.fingerprint
  | variableReference name => .form 2 :: name.fingerprint
  | string text => [.form 3, .text text]
  | float digits => [.form 4, .text digits]
  | int digits => [.form 5, .text digits]
  | boolean value => .form 6 :: ofBool value
  | list items => .form 7 :: .count items.length :: itemFingerprints items
  | object fields => .form 8 :: .count fields.length :: fieldFingerprints fields

/-- The fingerprints of the items of a list. -/
def itemFingerprints : List (Node Value) → Fingerprint
  | [] => []
  | ⟨_, _, item⟩ :: rest => fingerprint item ++ itemFingerprints rest

/-- The fingerprints of the fields of an object. -/
def fieldFingerprints : List (Name × Node Value) → Fingerprint
  | [] => []
  | (name, ⟨_, _, value⟩) :: rest =>
    name.fingerprint ++ fingerprint value ++ fieldFingerprints rest

end

end Value

/-! ## Parts of definitions -/

/-- The fingerprint of an argument that is given to a directive. -/
def Argument.fingerprint (argument : Argument) : Fingerprint :=
  argument.name.fingerprint ++ argument.value.value.fingerprint

/-- The fingerprint of the application of a directive. -/
def Directive.fingerprint (directive : Directive) : Fingerprint :=
  directive.name.fingerprint ++ ofNodes Argument.fingerprint directive.arguments

/-- The fingerprint of the applications of directives to one thing. -/
def Directives.fingerprint (directives : Directives) : Fingerprint :=
  ofNodes Directive.fingerprint directives

/-- The fingerprint of the definition of an argument or of a field of an input object. -/
def InputValueDefinition.fingerprint (definition : InputValueDefinition) : Fingerprint :=
  ofDescription definition.description ++ definition.name.fingerprint ++
    definition.type.value.fingerprint ++
    ofOption (fun default => default.value.fingerprint) definition.default ++
    Directives.fingerprint definition.directives

/-- The fingerprint of the definition of a field. -/
def FieldDefinition.fingerprint (definition : FieldDefinition) : Fingerprint :=
  ofDescription definition.description ++ definition.name.fingerprint ++
    ofNodes InputValueDefinition.fingerprint definition.arguments ++
    definition.type.value.fingerprint ++ Directives.fingerprint definition.directives

/-- The fingerprint of the definition of a value of an enum type. -/
def EnumValueDefinition.fingerprint (definition : EnumValueDefinition) : Fingerprint :=
  ofDescription definition.description ++ definition.name.fingerprint ++
    Directives.fingerprint definition.directives

/-! ## Definitions of types and directives -/

/-- The fingerprint of the definition of a scalar type. -/
def ScalarDefinition.fingerprint (definition : ScalarDefinition) : Fingerprint :=
  ofDescription definition.description ++ definition.name.fingerprint ++
    Directives.fingerprint definition.directives

/-- The fingerprint of the definition of an object or interface type. -/
def ObjectLikeDefinition.fingerprint (definition : ObjectLikeDefinition) : Fingerprint :=
  ofDescription definition.description ++ definition.name.fingerprint ++
    ofList Name.fingerprint definition.interfaces ++
    Directives.fingerprint definition.directives ++
    ofNodes FieldDefinition.fingerprint definition.fields

/-- The fingerprint of the definition of a union type. -/
def UnionDefinition.fingerprint (definition : UnionDefinition) : Fingerprint :=
  ofDescription definition.description ++ definition.name.fingerprint ++
    Directives.fingerprint definition.directives ++
    ofList Name.fingerprint definition.members

/-- The fingerprint of the definition of an enum type. -/
def EnumDefinition.fingerprint (definition : EnumDefinition) : Fingerprint :=
  ofDescription definition.description ++ definition.name.fingerprint ++
    Directives.fingerprint definition.directives ++
    ofNodes EnumValueDefinition.fingerprint definition.values

/-- The fingerprint of the definition of an input object type. -/
def InputObjectDefinition.fingerprint (definition : InputObjectDefinition) : Fingerprint :=
  ofDescription definition.description ++ definition.name.fingerprint ++
    Directives.fingerprint definition.directives ++
    ofNodes InputValueDefinition.fingerprint definition.fields

/-- The fingerprint of the definition of a type. -/
def TypeDefinition.fingerprint : TypeDefinition → Fingerprint
  | scalar definition => .form 0 :: definition.value.fingerprint
  | object definition => .form 1 :: definition.value.fingerprint
  | interface definition => .form 2 :: definition.value.fingerprint
  | union definition => .form 3 :: definition.value.fingerprint
  | enum definition => .form 4 :: definition.value.fingerprint
  | inputObject definition => .form 5 :: definition.value.fingerprint

/-- The fingerprint of the definition of a directive. -/
def DirectiveDefinition.fingerprint (definition : DirectiveDefinition) : Fingerprint :=
  ofDescription definition.description ++ definition.name.fingerprint ++
    ofNodes InputValueDefinition.fingerprint definition.arguments ++
    ofBool definition.repeatable ++
    ofList (fun place : DirectiveLocation => [.form place.ctorIdx]) definition.locations

/-! ## Extensions and other definitions -/

/-- The fingerprint of the extension of an object type. -/
def ObjectExtension.fingerprint (extension : ObjectExtension) : Fingerprint :=
  extension.name.fingerprint ++ ofList Name.fingerprint extension.interfaces ++
    Directives.fingerprint extension.directives ++
    ofNodes FieldDefinition.fingerprint extension.fields

/-- The fingerprint of the extension of a type that is no object type. -/
def OtherExtension.fingerprint (extension : OtherExtension) : Fingerprint :=
  .form extension.keyword.ctorIdx :: extension.name.fingerprint

/-- The fingerprint of a definition that changes neither types nor directives. -/
def UnrelatedDefinition.fingerprint : UnrelatedDefinition → Fingerprint
  | operation name => .form 0 :: ofOption Name.fingerprint name
  | fragment name => .form 1 :: name.fingerprint
  | schema => [.form 2]
  | schemaExtension => [.form 3]

/-- The fingerprint of a definition of any kind. -/
def Definition.fingerprint : Definition → Fingerprint
  | directive definition => .form 0 :: definition.value.fingerprint
  | type definition => .form 1 :: definition.fingerprint
  | objectExtension extension => .form 2 :: extension.value.fingerprint
  | otherExtension extension => .form 3 :: extension.value.fingerprint
  | unrelated definition => .form 4 :: definition.value.fingerprint

end SchemaGraft
