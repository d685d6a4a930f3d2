import SchemaGraft.Extension.Plan
import SchemaGraft.Extension.Resolvers

/-!
# Building the types of an extended schema

Types are built on demand, each at most once. Whoever refers to a type needs to know only its kind,
and that is known as soon as the type has been begun; so types may refer to each other in circles.
`BuildState.slots` holds the types that have been begun or built, under the names by which they were
first asked for.

Building a type asks for the types it refers to, and so on. The functions below take what answers
such a request as an argument, `resolve`; `resolve` itself, at the end, ties the knot. A type that
asks for another one has been begun and will not be begun again, so requests never nest deeper than
there are names in the plan, and that bounds the recursion.

Everything that is built anew gets an identity of the run that builds it.
-/

set_option autoImplicit false

namespace SchemaGraft

/-- How far a type has come. -/
inductive BuildSlot where
  /-- Begun; its kind is known. -/
  | inProgress (kind : TypeKind)
  | built (type : SchemaType)

/-- The kind of a type that has been begun. -/
def BuildSlot.kind : BuildSlot → TypeKind
  | inProgress kind => kind
  | built type => type.kind

/-- How far building has come. -/
structure BuildState where
  slots : NameMap BuildSlot
  /-- The events so far, latest first. -/
  events : List Event

/-- The state in which nothing has been begun. -/
def BuildState.initial : BuildState := ⟨OrderedMap.empty, []⟩

/-- What building takes from the schema, the document and the user. -/
structure BuildContext where
  /-- The number of the run, which no other run has. -/
  run : Nat
  base : Schema
  plan : ExtensionPlan
  resolvers : ResolverAssignment

/-- A step of building: it may be rejected, and changes the state in any case. -/
abbrev Build := EStateM Rejection BuildState

namespace Build

/-- Notes an event. -/
def record (event : Event) : Build Unit :=
  modify fun state => { state with events := event :: state.events }

/-- Notes how far a type has come. -/
def store (name : Name) (slot : BuildSlot) : Build Unit :=
  modify fun state => { state with slots := state.slots.insert name slot }

/-- What answers requests for types: the kind of the type of a name, if there is one. -/
abbrev Resolve := Name → Build (Option TypeKind)

/-! ## References -/

/-- Checks a reference to a type. -/
def reference (resolve : Resolve) (name : Name) (location : Option Location)
    (expected : ExpectedKind) (site : ReferenceSite) : Build Unit := do
  match ← resolve name with
  | some found =>
    if expected.accepts found then pure ()
    else throw (.unexpectedKind name site location found expected)
  | none => throw (.unknownType name site location)

/-- Checks the type of a field or argument. -/
def referenceType (resolve : Resolve) (type : Node TypeReference) (expected : ExpectedKind)
    (site : ReferenceSite) : Build Unit :=
  reference resolve type.value.innerName type.location expected site

/-! ## Members -/

/-- Rejects a member that a type has already. -/
def rejectDuplicate {α : Type} (type : Name) (members : NameMap (Node α)) (name : Name)
    (location : Option Location) : Build Unit :=
  match members.get? name with
  | some previous => throw (.duplicateField type name location previous.location)
  | none => pure ()

/-- Adds an interface to those that a type implements. -/
def addInterface (resolve : Resolve) (type : Name) (clause : Option Location)
    (interfaces : NameSet) (interface : Name) : Build NameSet := do
  let location := interface.location.or clause
  if interfaces.contains interface then
    throw (.duplicateInterface type interface location)
  reference resolve interface location .interface (.implementedInterface type)
  return interfaces.add interface

/-- Adds interfaces one after the other. -/
def addInterfaces (resolve : Resolve) (type : Name) (clause : Option Location)
    (interfaces : NameSet) (added : List Name) : Build NameSet :=
  added.foldlM (addInterface resolve type clause) interfaces

/-- Checks the types of the arguments of a field. -/
def referenceArguments (resolve : Resolve) (type field : Name) :
    List (Node InputValueDefinition) → Build Unit
  | [] => pure ()
  | argument :: rest => do
    referenceType resolve argument.value.type .input (.argument type field argument.value.name)
    referenceArguments resolve type field rest

/-- The field that a definition makes in the type that the schema has under `key`. -/
def fieldOf (context : BuildContext) (key type : Name) (definition : Node FieldDefinition) :
    Node Field :=
  definition.rebuild (.built context.run (.field key.text definition.value.name.text))
    { description := definition.value.description
      name := definition.value.name
      arguments := definition.value.arguments
      type := definition.value.type
      directives := definition.value.directives
      deprecation := Deprecation.ofDirectives? definition.value.directives
      resolver := context.resolvers.resolverOf type definition.value.name }

/-- Adds a field to those of a type. -/
def addField (context : BuildContext) (resolve : Resolve) (key type : Name)
    (fields : NameMap (Node Field)) (definition : Node FieldDefinition) :
    Build (NameMap (Node Field)) := do
  let name := definition.value.name
  rejectDuplicate type fields name definition.location
  referenceType resolve definition.value.type .output (.field type name)
  referenceArguments resolve type name definition.value.arguments
  return fields.insert name (fieldOf context key type definition)

/-- Adds fields one after the other. -/
def addFields (context : BuildContext) (resolve : Resolve) (key type : Name)
    (fields : NameMap (Node Field)) (added : List (Node FieldDefinition)) :
    Build (NameMap (Node Field)) :=
  added.foldlM (addField context resolve key type) fields

/-- Adds a member to those of a union. -/
def addMember (resolve : Resolve) (type : Name) (definition : Option Location)
    (members : NameSet) (member : Name) : Build NameSet := do
  reference resolve member (member.location.or definition) .object (.unionMember type)
  return members.add member

/-- The enum value that a definition makes. -/
def enumValueOf (context : BuildContext) (type : Name) (definition : Node EnumValueDefinition) :
    Node EnumValue :=
  definition.rebuild (.built context.run (.enumValue type.text definition.value.name.text))
    { description := definition.value.description
      name := definition.value.name
      directives := definition.value.directives
      deprecation := Deprecation.ofDirectives? definition.value.directives
      internalValue := .string definition.value.name.text }

/-- Adds a value to those of an enum. -/
def addEnumValue (context : BuildContext) (type : Name) (values : NameMap (Node EnumValue))
    (definition : Node EnumValueDefinition) : Build (NameMap (Node EnumValue)) := do
  rejectDuplicate type values definition.value.name definition.location
  return values.insert definition.value.name (enumValueOf context type definition)

/-- Adds a field to those of an input object. -/
def addInputField (resolve : Resolve) (type : Name)
    (fields : NameMap (Node InputValueDefinition)) (definition : Node InputValueDefinition) :
    Build (NameMap (Node InputValueDefinition)) := do
  let name := definition.value.name
  rejectDuplicate type fields name definition.location
  referenceType resolve definition.value.type .input (.inputField type name)
  return fields.insert name definition

/-! ## Types -/

/-- The identity of a type that is built for the schema to have under `key`. -/
def typeIdentity (context : BuildContext) (key : Name) : NodeId :=
  .built context.run (.type key.text)

/-- Applies an extension to an object type. -/
def applyClause (context : BuildContext) (resolve : Resolve) (key : Name)
    (type : ObjectLikeType) (clause : Node ObjectExtension) : Build ObjectLikeType := do
  let interfaces ←
    addInterfaces resolve type.name clause.location type.interfaces clause.value.interfaces
  let fields ← addFields context resolve key type.name type.fields clause.value.fields
  return { type with
    interfaces := interfaces
    directives := type.directives ++ clause.value.directives
    fields := fields }

/-- Builds an object type of the base schema with its extensions. -/
def extendObject (context : BuildContext) (resolve : Resolve) (key : Name)
    (extended : ExtendedObject) : Build (Node ObjectLikeType) := do
  let type ← extended.clauses.foldlM (applyClause context resolve key) extended.base.value
  return extended.base.rebuild (typeIdentity context key) type

/-- Builds an object or interface type. -/
def buildObjectLike (context : BuildContext) (resolve : Resolve)
    (definition : Node ObjectLikeDefinition) : Build (Node ObjectLikeType) := do
  let name := definition.value.name
  let interfaces ←
    addInterfaces resolve name definition.location OrderedMap.empty definition.value.interfaces
  let fields ← addFields context resolve name name OrderedMap.empty definition.value.fields
  return definition.rebuild (typeIdentity context name)
    { description := definition.value.description
      name := name
      interfaces := interfaces
      directives := definition.value.directives
      fields := fields }

/-- Builds a union type. -/
def buildUnion (context : BuildContext) (resolve : Resolve) (definition : Node UnionDefinition) :
    Build (Node UnionType) := do
  let name := definition.value.name
  let members ← definition.value.members.foldlM (addMember resolve name definition.location)
    OrderedMap.empty
  return definition.rebuild (typeIdentity context name)
    { description := definition.value.description
      name := name
      directives := definition.value.directives
      members := members }

/-- Builds an enum type. -/
def buildEnum (context : BuildContext) (definition : Node EnumDefinition) :
    Build (Node EnumType) := do
  let name := definition.value.name
  let values ← definition.value.values.foldlM (addEnumValue context name) OrderedMap.empty
  return definition.rebuild (typeIdentity context name)
    { description := definition.value.description
      name := name
      directives := definition.value.directives
      values := values }

/-- Builds an input object type. -/
def buildInputObject (context : BuildContext) (resolve : Resolve)
    (definition : Node InputObjectDefinition) : Build (Node InputObjectType) := do
  let name := definition.value.name
  let fields ← definition.value.fields.foldlM (addInputField resolve name) OrderedMap.empty
  return definition.rebuild (typeIdentity context name)
    { description := definition.value.description
      name := name
      directives := definition.value.directives
      fields := fields }

/-- Builds a new type. -/
def buildType (context : BuildContext) (resolve : Resolve) : TypeDefinition → Build SchemaType
  | .scalar definition =>
    return .scalar
      (definition.rebuild (typeIdentity context definition.value.name) definition.value)
  | .object definition => return .object (← buildObjectLike context resolve definition)
  | .interface definition => return .interface (← buildObjectLike context resolve definition)
  | .union definition => return .union (← buildUnion context resolve definition)
  | .enum definition => return .enum (← buildEnum context definition)
  | .inputObject definition => return .inputObject (← buildInputObject context resolve definition)

/-! ## Requests for types -/

/-- The kind of the type of a name in the extended schema. -/
def declaredKind? (context : BuildContext) (name : Name) : Option TypeKind :=
  if context.plan.extended.contains name then some .object
  else ((context.base.types.get? name).map (·.kind)).or
    ((context.plan.newTypes.get? name).map (·.kind))

/-- Answers a request for a type that has not been begun, and builds it. -/
def begin? (context : BuildContext) (resolve : Resolve) (name : Name) :
    Build (Option TypeKind) :=
  match context.plan.extended.get? name with
  | some extended => do
    store name (.inProgress .object)
    let type ← extendObject context resolve name extended
    record (.builtExtendedType name extended.clauses.length)
    store name (.built (.object type))
    return some .object
  | none =>
    match context.base.types.get? name with
    | some type => do
      store name (.built type)
      return some type.kind
    | none =>
      match context.plan.newTypes.get? name with
      | some definition => do
        store name (.inProgress definition.kind)
        let type ← buildType context resolve definition
        record (.builtNewType name definition.kind)
        store name (.built type)
        return some definition.kind
      | none => return none

/-- Answers a request for a type, given how to answer those that arise from it. -/
def resolveWith (context : BuildContext) (resolve : Resolve) : Resolve := fun name => do
  match (← get).slots.get? name with
  | some slot => return some slot.kind
  | none => begin? context resolve name

/-- Answers a request for a type where requests may nest to a depth. -/
def resolveWithin (context : BuildContext) : Nat → Resolve
  | 0 => fun name => return declaredKind? context name
  | depth + 1 => resolveWith context (resolveWithin context depth)

/-- How deep requests can nest: no name of the plan is begun twice. -/
def depthBound (plan : ExtensionPlan) : Nat := plan.extended.size + plan.newTypes.size + 1

/-- Answers a request for a type. -/
def resolve (context : BuildContext) : Resolve :=
  resolveWithin context (depthBound context.plan)

/-! ## Directives and the whole schema -/

/-- Checks the types of the arguments of a directive. -/
def referenceDirectiveArguments (resolve : Resolve) (directive : Name) :
    List (Node InputValueDefinition) → Build Unit
  | [] => pure ()
  | argument :: rest => do
    referenceType resolve argument.value.type .input
      (.directiveArgument directive argument.value.name)
    referenceDirectiveArguments resolve directive rest

/-- Adds a directive to those of the schema. -/
def addDirective (resolve : Resolve) (directives : NameMap (Node DirectiveDefinition))
    (definition : Node DirectiveDefinition) : Build (NameMap (Node DirectiveDefinition)) := do
  let name := definition.value.name
  match directives.get? name with
  | some previous =>
    throw (.directiveRedefinition name definition.location previous.location)
  | none =>
    referenceDirectiveArguments resolve name definition.value.arguments
    record (.addedDirective name)
    return directives.insert name definition

/-- Requests types one after the other. -/
def resolveAll (resolve : Resolve) : List Name → Build Unit
  | [] => pure ()
  | name :: rest => do
    let _ ← resolve name
    resolveAll resolve rest

/-- The type that was built for a name, with the name it was first asked for. -/
def builtType? (slots : NameMap BuildSlot) (name : Name) : Option (Name × SchemaType) :=
  match slots.find? name with
  | some (key, .built type) => some (key, type)
  | _ => none

/-- The types of the extended schema: those of the base schema in their order, then the new ones in
the order of the document. -/
def collect (context : BuildContext) (slots : NameMap BuildSlot) : NameMap SchemaType :=
  let kept := context.base.types.entries.map fun (name, type) =>
    (name, ((builtType? slots name).map (·.2)).getD type)
  let added := context.plan.newTypes.keys.filterMap (builtType? slots)
  OrderedMap.ofList (kept ++ added)

/-- Builds the extended schema. -/
def schema (context : BuildContext) (sources : SourceMap) : Build Schema := do
  let directives ← context.plan.newDirectives.foldlM (addDirective (resolve context))
    context.base.directives
  resolveAll (resolve context) (context.plan.extended.keys ++ context.plan.newTypes.keys)
  return {
    sources := sources
    directives := directives
    types := collect context (← get).slots
    roots := context.base.roots }

end Build

end SchemaGraft
