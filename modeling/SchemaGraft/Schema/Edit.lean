import SchemaGraft.Schema.Basic

/-!
# Changing a schema

A change gives a new schema in which one thing is different. It is refused if what it is about does
not exist, is of another kind than the change is for, or should get a text for a name that is none,
in this order. Only the nodes on the way to it are new
and have an identity of the run that made the change; everything else is shared with the schema
before.
-/

set_option autoImplicit false

namespace SchemaGraft

/-- A change of one thing in a schema. -/
inductive SchemaEdit where
  | removeDirective (directive : String)
  | removeType (type : String)
  /-- Puts a type under a further name. -/
  | aliasType (type key : String)
  | setDescription (type : String) (description : Option String)
  | setInternalValue (type value : String) (internalValue : Json)
  | setResolver (type field : String) (resolver : Option Resolver)
  | setDeprecation (type field : String) (deprecation : Option Deprecation)
  | removeField (type field : String)
  | addInterface (type interface : String)
  /-- Removes the directive application that was written last. -/
  | popDirective (type : String)

/-- Why a change cannot be made. -/
inductive EditProblem where
  /-- The type, directive or member does not exist. -/
  | missing
  /-- The change is not one for types of that kind. -/
  | unsuited
  /-- A new name is no name. -/
  | invalidName (invalid : InvalidName)
  deriving DecidableEq

/-- The name that a text spells. -/
def SchemaEdit.newName (text : String) : Except EditProblem Name :=
  (Name.ofText? text).mapError .invalidName

namespace SchemaType

/-- A type with a description. -/
def withDescription (identity : NodeId) (description : Option String) : SchemaType → SchemaType
  | scalar type => .scalar (type.rebuild identity { type.value with description := description })
  | object type => .object (type.rebuild identity { type.value with description := description })
  | interface type =>
    .interface (type.rebuild identity { type.value with description := description })
  | union type => .union (type.rebuild identity { type.value with description := description })
  | enum type => .enum (type.rebuild identity { type.value with description := description })
  | inputObject type =>
    .inputObject (type.rebuild identity { type.value with description := description })

end SchemaType

namespace Schema

/-- Changes an object type. -/
def editObject (run : Nat) (schema : Schema) (name : String)
    (change : ObjectLikeType → Except EditProblem ObjectLikeType) :
    Except EditProblem Schema :=
  match schema.type? name with
  | none => .error .missing
  | some (.object type) => do
    let changed ← change type.value
    let node := type.rebuild (.built run (.type name)) changed
    return { schema with types := schema.types.insert (.plain name) (.object node) }
  | some _ => .error .unsuited

/-- Changes a field of an object type. -/
def editField (run : Nat) (schema : Schema) (type field : String) (change : Field → Field) :
    Except EditProblem Schema :=
  schema.editObject run type fun content =>
    match content.fields.get? (.plain field) with
    | none => .error .missing
    | some node =>
      let node := node.rebuild (.built run (.field type field)) (change node.value)
      .ok { content with fields := content.fields.insert (.plain field) node }

/-- Changes a value of an enum type. -/
def editEnumValue (run : Nat) (schema : Schema) (type value : String)
    (change : EnumValue → EnumValue) : Except EditProblem Schema :=
  match schema.type? type with
  | none => .error .missing
  | some (.enum content) =>
    match content.value.values.get? (.plain value) with
    | none => .error .missing
    | some node =>
      let node := node.rebuild (.built run (.enumValue type value)) (change node.value)
      let values := content.value.values.insert (.plain value) node
      let content :=
        content.rebuild (.built run (.type type)) { content.value with values := values }
      .ok { schema with types := schema.types.insert (.plain type) (.enum content) }
  | some _ => .error .unsuited

/-- Makes a change. -/
def edit (run : Nat) (schema : Schema) : SchemaEdit → Except EditProblem Schema
  | .removeDirective directive =>
    if schema.directives.contains (.plain directive) then
      .ok { schema with directives := schema.directives.erase (.plain directive) }
    else .error .missing
  | .removeType type =>
    if schema.types.contains (.plain type) then
      .ok { schema with types := schema.types.erase (.plain type) }
    else .error .missing
  | .aliasType type key =>
    match schema.type? type with
    | some content => do
      let key ← SchemaEdit.newName key
      return { schema with types := schema.types.insert key content }
    | none => .error .missing
  | .setDescription type description =>
    match schema.type? type with
    | some content =>
      let content := content.withDescription (.built run (.type type)) description
      .ok { schema with types := schema.types.insert (.plain type) content }
    | none => .error .missing
  | .setInternalValue type value internalValue =>
    schema.editEnumValue run type value fun content =>
      { content with internalValue := internalValue }
  | .setResolver type field resolver =>
    schema.editField run type field fun content => { content with resolver := resolver }
  | .setDeprecation type field deprecation =>
    schema.editField run type field fun content => { content with deprecation := deprecation }
  | .removeField type field =>
    schema.editObject run type fun content =>
      if content.fields.contains (.plain field) then
        .ok { content with fields := content.fields.erase (.plain field) }
      else .error .missing
  | .addInterface type interface =>
    schema.editObject run type fun content => do
      let interface ← SchemaEdit.newName interface
      return { content with interfaces := content.interfaces.add interface }
  | .popDirective type =>
    schema.editObject run type fun content =>
      if content.directives.isEmpty then .error .missing
      else .ok { content with directives := content.directives.dropLast }

end Schema

end SchemaGraft
