import SchemaGraft.Extension.Build

/-!
# Extending a schema

`Schema.extend` adds the types and directives of a document to a schema and applies its extensions
of object types. The schema itself stays as it is, and whatever the document does not concern is
shared with it. If the document changes nothing, the answer says so instead of giving a copy.
-/

set_option autoImplicit false

namespace SchemaGraft

/-- What a schema became. -/
inductive ExtendedSchema where
  /-- The document changed nothing. -/
  | unchanged
  | changed (schema : Schema)

/-- What came of extending a schema, with the events on the way. -/
structure ExtensionOutcome (α : Type) where
  result : Except Rejection α
  events : List Event

/-- An extension that is to be carried out. -/
structure ExtensionRun where
  /-- A number that no earlier run had. It tells apart what different runs build. -/
  number : Nat
  resolvers : ResolverAssignment

namespace Schema

/-- Carries out a plan, even if it does nothing. -/
def carryOut (run : ExtensionRun) (base : Schema) (document : Document) (plan : ExtensionPlan) :
    ExtensionOutcome Schema :=
  let start := Event.startedExtension plan.extended.size plan.newTypes.size
    plan.newDirectives.length
  let context : BuildContext := ⟨run.number, base, plan, run.resolvers⟩
  match (Build.schema context (base.sourcesWith document)).run .initial with
  | .ok schema state => ⟨.ok schema, start :: state.events.reverse⟩
  | .error rejection state => ⟨.error rejection, start :: state.events.reverse⟩

/-- Extends a schema by a document. -/
def extend (run : ExtensionRun) (base : Schema) (document : Document) :
    ExtensionOutcome ExtendedSchema :=
  let planning := ExtensionPlan.empty.events base document.definitions
  match ExtensionPlan.ofDefinitions base document.definitions with
  | .error rejection => ⟨.error rejection, planning⟩
  | .ok plan =>
    if plan.isEmpty then ⟨.ok .unchanged, planning ++ [.reusedBase]⟩
    else
      let outcome := carryOut run base document plan
      ⟨outcome.result.map .changed, planning ++ outcome.events⟩

end Schema

end SchemaGraft
