import SchemaGraft.Schema.Basic

/-!
# Which fields get which resolvers

Before a schema is extended, resolvers can be assigned to the fields that the extension will add:
to single fields, and to all others. The last assignment counts.
-/

set_option autoImplicit false

namespace SchemaGraft

/-- The resolver of a single field. -/
structure FieldResolver where
  type : Name
  field : Name
  resolver : Resolver

/-- The resolvers of the fields that an extension adds. -/
structure ResolverAssignment where
  /-- Those of single fields, latest first. -/
  fields : List FieldResolver
  /-- That of all other fields. -/
  fallback : Option Resolver

namespace ResolverAssignment

/-- No field gets a resolver. -/
def none : ResolverAssignment := ⟨[], .none⟩

/-- Gives a field a resolver. -/
def assign (assignment : ResolverAssignment) (type field : Name) (resolver : Resolver) :
    ResolverAssignment :=
  { assignment with fields := ⟨type, field, resolver⟩ :: assignment.fields }

/-- Gives all fields a resolver that get none of their own. -/
def withFallback (assignment : ResolverAssignment) (resolver : Resolver) : ResolverAssignment :=
  { assignment with fallback := some resolver }

/-- The resolver of a field. -/
def resolverOf (assignment : ResolverAssignment) (type field : Name) : Option Resolver :=
  ((assignment.fields.find? fun entry => entry.type == type && entry.field == field).map
    (·.resolver)).or assignment.fallback

end ResolverAssignment

end SchemaGraft
