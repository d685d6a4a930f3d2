import SchemaGraft.Event
import SchemaGraft.Extension.Rejection

/-!
# Plans

Before anything is built, the definitions of a document are sorted by what they do to the schema:
the object types that they extend, with all extensions of a type together, the types that they add,
and the directives that they add. What can be told to be wrong from the names alone is rejected
here. Definitions that do nothing to a schema are passed over, and an event tells so.
-/

set_option autoImplicit false

namespace SchemaGraft

/-- The extensions of one object type of the base schema. -/
structure ExtendedObject where
  base : Node ObjectLikeType
  /-- The extensions in the order of the document. -/
  clauses : List (Node ObjectExtension)

/-- What a document does to a schema. -/
structure ExtensionPlan where
  extended : NameMap ExtendedObject
  newTypes : NameMap TypeDefinition
  newDirectives : List (Node DirectiveDefinition)

namespace ExtensionPlan

/-- The plan that does nothing. -/
def empty : ExtensionPlan := ⟨OrderedMap.empty, OrderedMap.empty, []⟩

/-- Whether a plan does nothing. -/
def isEmpty (plan : ExtensionPlan) : Bool :=
  plan.extended.isEmpty && plan.newTypes.isEmpty && plan.newDirectives.isEmpty

/-- The object type of the base schema that an extension is for. -/
def target (base : Schema) (name : Name) (location : Option Location) :
    Except Rejection (Node ObjectLikeType) :=
  match base.types.get? name with
  | none => .error (.unknownTargetType name location)
  | some (.object type) => .ok type
  | some other => .error (.invalidExtensionTarget name location (.typeOfKind other.kind))

/-- Adds the extension of an object type. -/
def addExtension (base : Schema) (plan : ExtensionPlan) (extension : Node ObjectExtension) :
    Except Rejection ExtensionPlan := do
  let target ← target base extension.value.name extension.location
  let extended :=
    match plan.extended.get? extension.value.name with
    | some earlier => ⟨earlier.base, earlier.clauses ++ [extension]⟩
    | none => ⟨target, [extension]⟩
  return { plan with extended := plan.extended.insert extension.value.name extended }

/-- An extension with another word is rejected, first of all for what it is meant to extend. -/
def rejectExtension (base : Schema) (extension : Node OtherExtension) : Rejection :=
  match target base extension.value.name extension.location with
  | .error rejection => rejection
  | .ok _ =>
    .invalidExtensionTarget extension.value.name extension.location
      (.otherKeyword extension.value.keyword)

/-- Adds a type. Neither the base schema nor the plan may have one of the same name. -/
def addType (base : Schema) (plan : ExtensionPlan) (definition : TypeDefinition) :
    Except Rejection ExtensionPlan :=
  let name := definition.name
  match base.types.get? name, plan.newTypes.get? name with
  | some previous, _ =>
    .error (.typeAlreadyExists name definition.location previous.location)
  | none, some previous =>
    .error (.typeAlreadyExists name definition.location previous.location)
  | none, none => .ok { plan with newTypes := plan.newTypes.insert name definition }

/-- Adds a definition. -/
def add (base : Schema) (plan : ExtensionPlan) : Definition → Except Rejection ExtensionPlan
  | .objectExtension extension => plan.addExtension base extension
  | .otherExtension extension => .error (rejectExtension base extension)
  | .type definition => plan.addType base definition
  | .directive definition =>
    .ok { plan with newDirectives := plan.newDirectives ++ [definition] }
  | .unrelated _ => .ok plan

/-- Adds definitions one after the other. -/
def addAll (base : Schema) (plan : ExtensionPlan) (definitions : List Definition) :
    Except Rejection ExtensionPlan :=
  definitions.foldlM (add base) plan

/-- The plan of a list of definitions. -/
def ofDefinitions (base : Schema) (definitions : List Definition) :
    Except Rejection ExtensionPlan :=
  empty.addAll base definitions

/-- The events of planning: one for each definition that does nothing, up to the first definition
that is rejected. -/
def events (base : Schema) (plan : ExtensionPlan) : List Definition → List Event
  | [] => []
  | definition :: rest =>
    match plan.add base definition with
    | .error _ => []
    | .ok next =>
      match definition with
      | .unrelated unrelated => .ignoredDefinition unrelated.value :: next.events base rest
      | _ => next.events base rest

end ExtensionPlan

end SchemaGraft
