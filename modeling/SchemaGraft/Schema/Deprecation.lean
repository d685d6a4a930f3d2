import SchemaGraft.Document.Definition

/-!
# Deprecation

A field or enum value is deprecated if the directive `@deprecated` is applied to it. The reason is
the argument `reason` of the first such application: the text of a string, the printed form of any
other value, and a set phrase if the argument is missing or null.
-/

set_option autoImplicit false

namespace SchemaGraft

/-- That something should no longer be used. -/
structure Deprecation where
  reason : String
  deriving DecidableEq

namespace Deprecation

/-- The reason where none is given. -/
def defaultReason : String := "No longer supported"

/-- The reason that an application of `@deprecated` gives. -/
def reasonOf (directive : Directive) : String :=
  match directive.argument? "reason" with
  | none => defaultReason
  | some .null => defaultReason
  | some (.string reason) => reason
  | some value => value.print

/-- The deprecation that the directives applied to something express. -/
def ofDirectives? (directives : Directives) : Option Deprecation :=
  (directives.get? "deprecated").map fun directive => ⟨reasonOf directive⟩

end Deprecation

end SchemaGraft
