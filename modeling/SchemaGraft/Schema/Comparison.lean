import SchemaGraft.Schema.Basic

/-!
# Comparing schemas part by part

Two schemas can share a definition, have equal ones, or different ones. Sharing is a matter of
identity, equality one of content.
-/

set_option autoImplicit false

namespace SchemaGraft

/-- How something in one schema relates to what has the same name in another. -/
inductive Likeness where
  /-- They are one. -/
  | same
  /-- They are two, but equal. -/
  | equal
  | different
  /-- The other schema has nothing of the name. -/
  | missing
  deriving DecidableEq

namespace Likeness

/-- The likeness of two things that are there. -/
def of (isSame isEqual : Bool) : Likeness :=
  if isSame then same else if isEqual then equal else different

/-- How a node relates to another one, if there is another one. -/
def ofNodes {α : Type} [BEq α] (left : Node α) : Option (Node α) → Likeness
  | some right => of (left.isSame right) (left == right)
  | none => missing

/-- How a type relates to another one, if there is another one. -/
def ofTypes (left : SchemaType) : Option SchemaType → Likeness
  | some right => of (left.isSame right) (left == right)
  | none => missing

end Likeness

/-- How a type relates to the type of the same name in another schema. -/
structure TypeComparison where
  name : Name
  likeness : Likeness
  /-- How the fields relate that both types have, where the types are not one and have fields. -/
  fields : Option (List (Name × Likeness))

namespace Schema

/-- How the fields of a type relate to those of another. -/
def compareFields (left right : NameMap (Node Field)) : List (Name × Likeness) :=
  left.entries.filterMap fun (name, field) =>
    (right.get? name).map fun other => (name, .ofNodes field (some other))

/-- How a type of one schema relates to another schema. -/
def compareType (right : Schema) (name : Name) (type : SchemaType) : TypeComparison :=
  let other := right.types.get? name
  let likeness := Likeness.ofTypes type other
  let fields := do
    let ours ← type.fields?
    let theirs ← (← other).fields?
    if likeness == .same then none else some (compareFields ours theirs)
  ⟨name, likeness, fields⟩

/-- How the types of one schema relate to another schema. -/
def compareTypes (left right : Schema) : List TypeComparison :=
  left.types.entries.map fun (name, type) => right.compareType name type

/-- How the directives of one schema relate to another schema. -/
def compareDirectives (left right : Schema) : List (Name × Likeness) :=
  left.directives.entries.map fun (name, directive) =>
    (name, .ofNodes directive (right.directives.get? name))

/-- The names of the types that a schema has anew although an earlier one has them too. -/
def rebuiltTypes (earlier later : Schema) : List Name :=
  (later.types.entries.filter fun (name, type) =>
    (earlier.types.get? name).any fun old => !old.isSame type).map (·.1)

/-- The names of the types that an earlier schema does not have. -/
def addedTypes (earlier later : Schema) : List Name :=
  later.types.keys.filter fun name => !earlier.types.contains name

/-- The names of the directives that an earlier schema does not have. -/
def addedDirectives (earlier later : Schema) : List Name :=
  later.directives.keys.filter fun name => !earlier.directives.contains name

end Schema

end SchemaGraft
