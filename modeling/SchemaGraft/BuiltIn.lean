import SchemaGraft.Document.Parse
import SchemaGraft.Extension.Extend

/-!
# Built-in definitions

Every schema starts with the scalar types and directives that the language itself defines. They are
read from a document of their own, in the way of any other document, as an extension of the schema
without definitions.
-/

set_option autoImplicit false

namespace SchemaGraft

namespace BuiltIn

/-- The lines of the document that defines the built-in directives. -/
def directiveLines : List String := [
  "\"Directs the executor to include this field or fragment only when the `if` argument is true.\"",
  "directive @include(",
  "  \"Included when true.\"",
  "  if: Boolean!",
  ") on FIELD | FRAGMENT_SPREAD | INLINE_FRAGMENT",
  "",
  "\"Directs the executor to skip this field or fragment when the `if` argument is true.\"",
  "directive @skip(",
  "  \"Skipped when true.\"",
  "  if: Boolean!",
  ") on FIELD | FRAGMENT_SPREAD | INLINE_FRAGMENT",
  "",
  "\"Marks an element of a GraphQL schema as no longer supported.\"",
  "directive @deprecated(",
  "  \"\"\"",
  "  Explains why this element was deprecated, usually also including a suggestion for how to " ++
    "access supported similar data. Formatted using the Markdown syntax, as specified by " ++
    "[CommonMark](https://commonmark.org/).",
  "  \"\"\"",
  "  reason: String = \"No longer supported\"",
  ") on FIELD_DEFINITION | ARGUMENT_DEFINITION | INPUT_FIELD_DEFINITION | ENUM_VALUE",
  "",
  "\"Exposes a URL that specifies the behavior of this scalar.\"",
  "directive @specifiedBy(",
  "  \"The URL that specifies the behavior of this scalar.\"",
  "  url: String!",
  ") on SCALAR"]

/-- The lines of the document that defines the built-in scalar types. -/
def scalarLines : List String := [
  "\"The `Int` scalar type represents non-fractional signed whole numeric values. Int can " ++
    "represent values between -(2^31) and 2^31 - 1.\"",
  "scalar Int",
  "",
  "\"The `Float` scalar type represents signed double-precision fractional values as specified " ++
    "by [IEEE 754](https://en.wikipedia.org/wiki/IEEE_floating_point).\"",
  "scalar Float",
  "",
  "\"The `String` scalar type represents textual data, represented as UTF-8 character " ++
    "sequences. The String type is most often used by GraphQL to represent free-form " ++
    "human-readable text.\"",
  "scalar String",
  "",
  "\"The `Boolean` scalar type represents `true` or `false`.\"",
  "scalar Boolean",
  "",
  "\"The `ID` scalar type represents a unique identifier, often used to refetch an object or as " ++
    "key for a cache. The ID type appears in a JSON response as a String; however, it is not " ++
    "intended to be human-readable. When expected as an input type, any string (such as " ++
    "`\\\"4\\\"`) or integer (such as `4`) input value will be accepted as an ID.\"",
  "scalar ID"]

/-- The document that defines what is built in. -/
def source : SourceFile :=
  ⟨"built_in.graphql", String.join ((directiveLines ++ [""] ++ scalarLines).map (· ++ "\n"))⟩

/-- The definitions that are built in. -/
def document : Document := (Document.parse {} .builtIn source).document

end BuiltIn

namespace Schema

/-- The schema that has only what a document defines, or nothing if the document cannot stand
alone. -/
def ofDocument (document : Document) : Schema :=
  match ExtensionPlan.ofDefinitions .empty document.definitions with
  | .error _ => .empty
  | .ok plan =>
    match (carryOut ⟨0, .none⟩ .empty document plan).result with
    | .error _ => .empty
    | .ok schema => schema

/-- The schema that has only what is built in. -/
def builtIn : Schema := ofDocument BuiltIn.document

end Schema

end SchemaGraft
