import SchemaGraft.Name

/-!
# Nodes and their identity

Documents and schemas are made of nodes. A schema that extends another one holds the very nodes of
the definitions it did not change, and users can ask whether two nodes are one. So a node has an
identity besides its value:

* a node that was read from a document is identified by the place it was read from;
* a node of a schema that was built or changed is identified by the part of the schema that it is
  and by the run that built it. Every run has a number of its own.

Two nodes are equal if they are one or have equal values. Their locations do not count.
-/

set_option autoImplicit false

namespace SchemaGraft

/-- The parts of a schema that building or changing it makes anew. -/
inductive SchemaPart where
  | type (name : String)
  | field (type field : String)
  | enumValue (type value : String)
  deriving DecidableEq

/-- Tells nodes of one kind apart. -/
inductive NodeId where
  /-- Read from a document, at this place. -/
  | parsed (location : Location)
  /-- Made by the run of this number. -/
  | built (run : Nat) (part : SchemaPart)
  deriving DecidableEq

/-- A value with an identity and the place that it was read from. -/
structure Node (α : Type) where
  identity : NodeId
  location : Option Location
  value : α

namespace Node

variable {α β : Type}

/-- The node of a value that was read from a place of a document. -/
def ofLocation (location : Location) (value : α) : Node α :=
  ⟨.parsed location, some location, value⟩

/-- A new node with another value at the same place. -/
def rebuild (node : Node α) (identity : NodeId) (value : β) : Node β :=
  ⟨identity, node.location, value⟩

/-- Whether two nodes are one. -/
def isSame (left right : Node α) : Bool := left.identity == right.identity

/-- Whether a node belongs to the definitions that every schema starts with. -/
def isBuiltIn (node : Node α) : Bool :=
  match node.location with
  | some location => location.file == .builtIn
  | none => false

/-- Nodes are equal if they are one or have equal values. -/
instance [BEq α] : BEq (Node α) :=
  ⟨fun left right => left.isSame right || left.value == right.value⟩

end Node

end SchemaGraft
