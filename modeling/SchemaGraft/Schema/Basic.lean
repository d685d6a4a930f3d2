import SchemaGraft.Json.Basic
import SchemaGraft.Schema.Deprecation

/-!
# Schemas

A schema maps names to the definitions of types and of directives, in the order in which they were
added, and names the types of the root operations. Types refer to each other by name.

In a schema the fields and values of a type are looked up by name too, and carry what an executor
wants to know about them: the deprecation that their directives express, the resolver of a field,
and the value that stands for an enum value inside the executor.
-/

set_option autoImplicit false

namespace SchemaGraft

/-- A handle that tells an executor how to resolve a field. The schema only keeps it. -/
structure Resolver where
  handle : Nat
  label : String

/-- Resolvers are equal if they are the same handle. -/
instance : BEq Resolver := ⟨fun left right => left.handle == right.handle⟩

/-! ## Types -/

/-- A field of an object or interface type. -/
structure Field where
  description : Option String
  name : Name
  arguments : List (Node InputValueDefinition)
  type : Node TypeReference
  directives : Directives
  deprecation : Option Deprecation
  /-- How an executor resolves the field, if not in its usual way. -/
  resolver : Option Resolver
  deriving BEq

/-- The definition of an argument, the first one if there are several. -/
def Field.argument? (field : Field) (name : String) : Option (Node InputValueDefinition) :=
  field.arguments.find? fun argument => argument.value.name.text == name

/-- A value of an enum type. -/
structure EnumValue where
  description : Option String
  name : Name
  directives : Directives
  deprecation : Option Deprecation
  /-- What stands for the value inside an executor. -/
  internalValue : Json
  deriving BEq

/-- A scalar type. -/
abbrev ScalarType := ScalarDefinition

/-- An object or interface type. -/
structure ObjectLikeType where
  description : Option String
  name : Name
  interfaces : NameSet
  directives : Directives
  fields : NameMap (Node Field)
  deriving BEq

/-- A union type. -/
structure UnionType where
  description : Option String
  name : Name
  directives : Directives
  members : NameSet
  deriving BEq

/-- An enum type. -/
structure EnumType where
  description : Option String
  name : Name
  directives : Directives
  values : NameMap (Node EnumValue)
  deriving BEq

/-- An input object type. -/
structure InputObjectType where
  description : Option String
  name : Name
  directives : Directives
  fields : NameMap (Node InputValueDefinition)
  deriving BEq

/-- A type of a schema, with all extensions folded in. -/
inductive SchemaType where
  | scalar (type : Node ScalarType)
  | object (type : Node ObjectLikeType)
  | interface (type : Node ObjectLikeType)
  | union (type : Node UnionType)
  | enum (type : Node EnumType)
  | inputObject (type : Node InputObjectType)
  deriving BEq

namespace SchemaType

/-- The kind of a type. -/
def kind : SchemaType → TypeKind
  | scalar _ => .scalar
  | object _ => .object
  | interface _ => .interface
  | union _ => .union
  | enum _ => .enum
  | inputObject _ => .inputObject

/-- The name that a type was defined with. -/
def name : SchemaType → Name
  | scalar type => type.value.name
  | object type => type.value.name
  | interface type => type.value.name
  | union type => type.value.name
  | enum type => type.value.name
  | inputObject type => type.value.name

/-- The description of a type. -/
def description : SchemaType → Option String
  | scalar type => type.value.description
  | object type => type.value.description
  | interface type => type.value.description
  | union type => type.value.description
  | enum type => type.value.description
  | inputObject type => type.value.description

/-- The directives applied to a type. -/
def directives : SchemaType → Directives
  | scalar type => type.value.directives
  | object type => type.value.directives
  | interface type => type.value.directives
  | union type => type.value.directives
  | enum type => type.value.directives
  | inputObject type => type.value.directives

/-- Where a type was defined. -/
def location : SchemaType → Option Location
  | scalar type => type.location
  | object type => type.location
  | interface type => type.location
  | union type => type.location
  | enum type => type.location
  | inputObject type => type.location

/-- Whether a type is one of those that every schema starts with. -/
def isBuiltIn : SchemaType → Bool
  | scalar type => type.isBuiltIn
  | object type => type.isBuiltIn
  | interface type => type.isBuiltIn
  | union type => type.isBuiltIn
  | enum type => type.isBuiltIn
  | inputObject type => type.isBuiltIn

/-- Whether two types are one node. -/
def isSame : SchemaType → SchemaType → Bool
  | scalar left, scalar right => left.isSame right
  | object left, object right => left.isSame right
  | interface left, interface right => left.isSame right
  | union left, union right => left.isSame right
  | enum left, enum right => left.isSame right
  | inputObject left, inputObject right => left.isSame right
  | _, _ => false

/-- The fields of an object or interface type. -/
def fields? : SchemaType → Option (NameMap (Node Field))
  | object type => some type.value.fields
  | interface type => some type.value.fields
  | scalar _ | union _ | enum _ | inputObject _ => none

end SchemaType

/-! ## Root operations -/

/-- The kinds of operations. -/
inductive OperationType where
  | query
  | mutation
  | subscription
  deriving DecidableEq

namespace OperationType

/-- All kinds, in the order in which they are listed. -/
def all : List OperationType := [query, mutation, subscription]

/-- The word for a kind in a document. -/
def keyword : OperationType → String
  | query => "query"
  | mutation => "mutation"
  | subscription => "subscription"

/-- The name that the root type of a kind has by default. -/
def defaultRootName : OperationType → String
  | query => "Query"
  | mutation => "Mutation"
  | subscription => "Subscription"

end OperationType

/-- The names of the types of the root operations. -/
structure RootOperations where
  query : Option Name
  mutation : Option Name
  subscription : Option Name
  deriving BEq

namespace RootOperations

/-- No root operation. -/
def none : RootOperations := ⟨.none, .none, .none⟩

/-- The name of the type of a root operation. -/
def get? (roots : RootOperations) : OperationType → Option Name
  | .query => roots.query
  | .mutation => roots.mutation
  | .subscription => roots.subscription

/-- The root operations that there are, with the names of their types. -/
def toList (roots : RootOperations) : List (OperationType × Name) :=
  OperationType.all.filterMap fun operation => (roots.get? operation).map (operation, ·)

end RootOperations

/-! ## Schemas -/

/-- A schema. -/
structure Schema where
  /-- The files that its definitions were read from. -/
  sources : SourceMap
  directives : NameMap (Node DirectiveDefinition)
  types : NameMap SchemaType
  roots : RootOperations

/-- Schemas are compared without regard to the files they were read from. -/
instance : BEq Schema := ⟨fun left right =>
  left.directives == right.directives && left.types == right.types && left.roots == right.roots⟩

namespace Schema

/-- The schema without any definition. -/
def empty : Schema := ⟨OrderedMap.empty, OrderedMap.empty, OrderedMap.empty, .none⟩

instance : Inhabited Schema := ⟨empty⟩

/-- The files of a schema followed by those of a document. Whatever can be wrong with extending the
schema by the document lies in one of them. -/
def sourcesWith (schema : Schema) (document : Document) : SourceMap :=
  schema.sources.merge document.sources

/-- The type of a name. -/
def type? (schema : Schema) (name : String) : Option SchemaType :=
  schema.types.get? (.plain name)

/-- The type of a name, if it is of a kind. -/
def typeOfKind? (schema : Schema) (kind : TypeKind) (name : String) : Option SchemaType :=
  (schema.type? name).filter (·.kind == kind)

/-- The object type of a name. -/
def object? (schema : Schema) (name : String) : Option (Node ObjectLikeType) :=
  match schema.type? name with
  | some (.object type) => some type
  | _ => none

/-- The object type of a root operation. -/
def rootObject? (schema : Schema) (operation : OperationType) : Option (Node ObjectLikeType) := do
  let name ← schema.roots.get? operation
  schema.object? name.text

/-- A field of an object or interface type. -/
def field? (schema : Schema) (type field : String) : Option (Node Field) := do
  let fields ← (← schema.type? type).fields?
  fields.get? (.plain field)

/-- The type that a reference leads to, through all its wrappers. -/
def resolve? (schema : Schema) (reference : TypeReference) : Option SchemaType :=
  schema.types.get? reference.innerName

/-- Whether a reference leads to a type that arguments and input fields can have. -/
def isInput (schema : Schema) (reference : TypeReference) : Bool :=
  (schema.resolve? reference).any (·.kind.isInput)

/-- Whether a reference leads to a type that fields can have. -/
def isOutput (schema : Schema) (reference : TypeReference) : Bool :=
  (schema.resolve? reference).any (·.kind.isOutput)

end Schema

end SchemaGraft
