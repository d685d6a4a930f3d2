import SchemaGraft.Name

/-!
# References to types

A reference is a name inside any number of list and non-null wrappers. No wrapper is non-null twice.
-/

set_option autoImplicit false

namespace SchemaGraft

/-- A reference to a type. -/
inductive TypeReference where
  | named (name : Name)
  | nonNullNamed (name : Name)
  | list (item : TypeReference)
  | nonNullList (item : TypeReference)

namespace TypeReference

/-- The name inside all wrappers. -/
def innerName : TypeReference → Name
  | named name => name
  | nonNullNamed name => name
  | list item => item.innerName
  | nonNullList item => item.innerName

/-- The text of a reference. -/
def print : TypeReference → String
  | named name => name.text
  | nonNullNamed name => name.text ++ "!"
  | list item => "[" ++ item.print ++ "]"
  | nonNullList item => "[" ++ item.print ++ "]!"

/-- The non-null form of a reference, unless it is non-null already. -/
def nonNull? : TypeReference → Option TypeReference
  | named name => some (nonNullNamed name)
  | list item => some (nonNullList item)
  | nonNullNamed _ => none
  | nonNullList _ => none

/-- Whether two references are equal. -/
def same : TypeReference → TypeReference → Bool
  | named left, named right => left == right
  | nonNullNamed left, nonNullNamed right => left == right
  | list left, list right => same left right
  | nonNullList left, nonNullList right => same left right
  | _, _ => false

instance : BEq TypeReference := ⟨same⟩

end TypeReference

end SchemaGraft
