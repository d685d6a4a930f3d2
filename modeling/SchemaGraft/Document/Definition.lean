import SchemaGraft.DirectiveLocation
import SchemaGraft.Document.TypeReference
import SchemaGraft.Document.Value
import SchemaGraft.TypeKind

/-!
# Definitions

A document is a list of definitions of types and directives and of extensions. Operations, fragments
and the definition of the schema itself are only noted.

Object and interface types have the same parts and share one structure; so do arguments and the
fields of input objects.
-/

set_option autoImplicit false

namespace SchemaGraft

/-! ## Directive applications -/

/-- An argument that is given to a directive. -/
structure Argument where
  name : Name
  value : Node Value
  deriving BEq

/-- The application of a directive. -/
structure Directive where
  name : Name
  arguments : List (Node Argument)
  deriving BEq

/-- The value given for an argument, the first one if there are several. -/
def Directive.argument? (directive : Directive) (name : String) : Option Value :=
  (directive.arguments.find? fun argument => argument.value.name.text == name).map
    (·.value.value.value)

/-- The applications of directives to one thing, in the order in which they were written. -/
abbrev Directives := List (Node Directive)

namespace Directives

/-- The first application of a directive. -/
def get? (directives : Directives) (name : String) : Option Directive :=
  (directives.find? fun directive => directive.value.name.text == name).map (·.value)

/-- Whether a directive is applied. -/
def has (directives : Directives) (name : String) : Bool := (directives.get? name).isSome

end Directives

/-! ## Members of types -/

/-- The definition of an argument or of a field of an input object. -/
structure InputValueDefinition where
  description : Option String
  name : Name
  type : Node TypeReference
  default : Option (Node Value)
  directives : Directives
  deriving BEq

/-- The definition of a field. -/
structure FieldDefinition where
  description : Option String
  name : Name
  arguments : List (Node InputValueDefinition)
  type : Node TypeReference
  directives : Directives
  deriving BEq

/-- The definition of a value of an enum type. -/
structure EnumValueDefinition where
  description : Option String
  name : Name
  directives : Directives
  deriving BEq

/-! ## Definitions of types and directives -/

/-- The definition of a scalar type. -/
structure ScalarDefinition where
  description : Option String
  name : Name
  directives : Directives
  deriving BEq

/-- The definition of an object or interface type. -/
structure ObjectLikeDefinition where
  description : Option String
  name : Name
  interfaces : List Name
  directives : Directives
  fields : List (Node FieldDefinition)
  deriving BEq

/-- The definition of a union type. -/
structure UnionDefinition where
  description : Option String
  name : Name
  directives : Directives
  members : List Name
  deriving BEq

/-- The definition of an enum type. -/
structure EnumDefinition where
  description : Option String
  name : Name
  directives : Directives
  values : List (Node EnumValueDefinition)
  deriving BEq

/-- The definition of an input object type. -/
structure InputObjectDefinition where
  description : Option String
  name : Name
  directives : Directives
  fields : List (Node InputValueDefinition)
  deriving BEq

/-- The definition of a type. -/
inductive TypeDefinition where
  | scalar (definition : Node ScalarDefinition)
  | object (definition : Node ObjectLikeDefinition)
  | interface (definition : Node ObjectLikeDefinition)
  | union (definition : Node UnionDefinition)
  | enum (definition : Node EnumDefinition)
  | inputObject (definition : Node InputObjectDefinition)
  deriving BEq

namespace TypeDefinition

/-- The kind of the defined type. -/
def kind : TypeDefinition → TypeKind
  | scalar _ => .scalar
  | object _ => .object
  | interface _ => .interface
  | union _ => .union
  | enum _ => .enum
  | inputObject _ => .inputObject

/-- The name of the defined type. -/
def name : TypeDefinition → Name
  | scalar definition => definition.value.name
  | object definition => definition.value.name
  | interface definition => definition.value.name
  | union definition => definition.value.name
  | enum definition => definition.value.name
  | inputObject definition => definition.value.name

/-- Where the definition was read. -/
def location : TypeDefinition → Option Location
  | scalar definition => definition.location
  | object definition => definition.location
  | interface definition => definition.location
  | union definition => definition.location
  | enum definition => definition.location
  | inputObject definition => definition.location

end TypeDefinition

/-- The definition of a directive. -/
structure DirectiveDefinition where
  description : Option String
  name : Name
  arguments : List (Node InputValueDefinition)
  repeatable : Bool
  locations : List DirectiveLocation
  deriving BEq

/-! ## Extensions and other definitions -/

/-- The extension of an object type. -/
structure ObjectExtension where
  name : Name
  interfaces : List Name
  directives : Directives
  fields : List (Node FieldDefinition)
  deriving BEq

/-- The words that extend types other than object types. -/
inductive ExtensionKeyword where
  | scalar
  | interface
  | union
  | enum
  | inputObject
  deriving DecidableEq

/-- What reports call an extension with a keyword. -/
def ExtensionKeyword.describe : ExtensionKeyword → String
  | scalar => "a scalar type extension"
  | interface => "an interface type extension"
  | union => "a union type extension"
  | enum => "an enum type extension"
  | inputObject => "an input object type extension"

/-- The extension of a type that is no object type. Its content is not kept. -/
structure OtherExtension where
  keyword : ExtensionKeyword
  name : Name
  deriving BEq

/-- A definition that changes neither types nor directives. -/
inductive UnrelatedDefinition where
  | operation (name : Option Name)
  | fragment (name : Name)
  | schema
  | schemaExtension
  deriving BEq

/-- What events call a definition that changes nothing. -/
def UnrelatedDefinition.describe : UnrelatedDefinition → String
  | operation _ => "an operation definition"
  | fragment _ => "a fragment definition"
  | schema => "a schema definition"
  | schemaExtension => "a schema extension"

/-- A definition of any kind. -/
inductive Definition where
  | directive (definition : Node DirectiveDefinition)
  | type (definition : TypeDefinition)
  | objectExtension (extension : Node ObjectExtension)
  | otherExtension (extension : Node OtherExtension)
  | unrelated (definition : Node UnrelatedDefinition)
  deriving BEq

namespace Definition

/-- The name of what is defined or extended, if it has one. -/
def name? : Definition → Option Name
  | directive definition => some definition.value.name
  | type definition => some definition.name
  | objectExtension extension => some extension.value.name
  | otherExtension extension => some extension.value.name
  | unrelated definition =>
    match definition.value with
    | .operation name => name
    | .fragment name => some name
    | .schema | .schemaExtension => none

/-- Where the definition was read. -/
def location : Definition → Option Location
  | directive definition => definition.location
  | type definition => definition.location
  | objectExtension extension => extension.location
  | otherExtension extension => extension.location
  | unrelated definition => definition.location

end Definition

/-- A list of definitions with the files that they were read from. -/
structure Document where
  sources : SourceMap
  definitions : List Definition

/-- The document without definitions. -/
def Document.empty : Document := ⟨OrderedMap.empty, []⟩

end SchemaGraft
