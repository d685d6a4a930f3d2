import SchemaGraft.Document.Definition

/-!
# Events

Reading a document and extending a schema leave a trail of events. They show what was found and in
which order the types of a schema were finished.
-/

set_option autoImplicit false

namespace SchemaGraft

/-- How much an event matters. -/
inductive EventLevel where
  | trace
  | debug
  deriving DecidableEq

/-- The text of a level. -/
def EventLevel.print : EventLevel → String
  | trace => "TRACE"
  | debug => "DEBUG"

/-- Something that happened. -/
inductive Event where
  | parsedDocument (definitions : Nat)
  | foundSyntaxErrors (errors : Nat)
  | ignoredDefinition (definition : UnrelatedDefinition)
  | reusedBase
  | startedExtension (extendedTypes newTypes newDirectives : Nat)
  | addedDirective (name : Name)
  | builtExtendedType (name : Name) (clauses : Nat)
  | builtNewType (name : Name) (kind : TypeKind)

/-- What an event tells besides its message. -/
inductive EventField where
  | count (count : Nat)
  | text (text : String)

namespace Event

/-- How much an event matters. -/
def level : Event → EventLevel
  | foundSyntaxErrors _ | ignoredDefinition _ | reusedBase | startedExtension .. => .debug
  | parsedDocument _ | addedDirective _ | builtExtendedType .. | builtNewType .. => .trace

/-- The sentence for an event. -/
def message : Event → String
  | parsedDocument _ => "parsed document"
  | foundSyntaxErrors _ => "document has syntax errors"
  | ignoredDefinition _ => "ignoring definition irrelevant to schema extension"
  | reusedBase => "no type system definition to apply, reusing base schema"
  | startedExtension .. => "extending schema"
  | addedDirective _ => "added directive"
  | builtExtendedType .. => "built extended type"
  | builtNewType .. => "built new type"

/-- The particulars of an event. -/
def fields : Event → List (String × EventField)
  | parsedDocument definitions => [("definitions", .count definitions)]
  | foundSyntaxErrors errors => [("errors", .count errors)]
  | ignoredDefinition definition => [("definition", .text definition.describe)]
  | reusedBase => []
  | startedExtension extendedTypes newTypes newDirectives =>
    [("extended_types", .count extendedTypes), ("new_types", .count newTypes),
      ("new_directives", .count newDirectives)]
  | addedDirective name => [("name", .text name.text)]
  | builtExtendedType name clauses => [("name", .text name.text), ("clauses", .count clauses)]
  | builtNewType name kind => [("name", .text name.text), ("kind", .text kind.describe)]

end Event

end SchemaGraft
