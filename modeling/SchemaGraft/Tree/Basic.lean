/-!
# Syntax trees

The tree of a document keeps every token that the grammar took or passed over. Each branch has the
kind of the construct it is and a range of bytes. The ranges count the bytes of the tokens in the
tree, which are those of the text as long as no text was rejected.
-/

set_option autoImplicit false

namespace SchemaGraft

/-- The constructs of the grammar. -/
inductive TreeKind where
  | document
  | description
  | name
  | namedType
  | listType
  | nonNullType
  | directives
  | directive
  | arguments
  | argument
  | variableReference
  | intValue
  | floatValue
  | stringValue
  | booleanValue
  | nullValue
  | enumValue
  | listValue
  | objectValue
  | objectField
  | implementsInterfaces
  | fieldsDefinition
  | fieldDefinition
  | argumentsDefinition
  | inputValueDefinition
  | defaultValue
  | inputFieldsDefinition
  | enumValuesDefinition
  | enumValueDefinition
  | unionMembers
  | directiveLocations
  | directiveLocation
  | rootOperation
  | operationType
  | scalarDefinition
  | objectDefinition
  | interfaceDefinition
  | unionDefinition
  | enumDefinition
  | inputObjectDefinition
  | directiveDefinition
  | schemaDefinition
  | scalarExtension
  | objectExtension
  | interfaceExtension
  | unionExtension
  | enumExtension
  | inputObjectExtension
  | schemaExtension
  | operationDefinition
  | fragmentDefinition
  | fragmentName
  | typeCondition
  | variableDefinitions
  | variableDefinition
  | selectionSet
  | fieldSelection
  | alias
  | fragmentSpread
  | inlineFragment
  deriving DecidableEq

/-- What a token is for the construct that it stands in. -/
inductive TokenRole where
  /-- The text of a name. -/
  | identifier
  /-- The word that makes a directive repeatable. -/
  | repeatable
  /-- Anything else that the grammar asks for. -/
  | part
  /-- White space, a comment or a comma. -/
  | ignored
  /-- A token that fits nowhere. -/
  | rejected
  deriving DecidableEq

/-- The syntax tree of a document or of a part of it. -/
inductive Tree where
  | leaf (role : TokenRole) (text : String) (start : Nat)
  | branch (kind : TreeKind) (start stop : Nat) (children : List Tree)

namespace Tree

/-- Whether a tree is a branch of a kind. -/
def isBranch (kind : TreeKind) : Tree → Bool
  | branch own _ _ _ => own == kind
  | leaf .. => false

/-- The trees directly below. -/
def children : Tree → List Tree
  | branch _ _ _ children => children
  | leaf .. => []

/-- The first branch of a kind directly below. -/
def child? (kind : TreeKind) (tree : Tree) : Option Tree := tree.children.find? (isBranch kind)

/-- The branches of a kind directly below, in order. -/
def childrenOf (kind : TreeKind) (tree : Tree) : List Tree := tree.children.filter (isBranch kind)

/-- Whether a tree is a token with a role. -/
def isLeaf (role : TokenRole) : Tree → Bool
  | leaf own _ _ => own == role
  | branch .. => false

mutual

/-- The text of the first token of a tree. -/
def firstText? : Tree → Option String
  | leaf _ text _ => some text
  | branch _ _ _ children => firstTextOfList? children

/-- The text of the first token of a list of trees. -/
def firstTextOfList? : List Tree → Option String
  | [] => none
  | tree :: rest => (firstText? tree).or (firstTextOfList? rest)

end

mutual

/-- The text that a tree was read from, less what was rejected. -/
def text : Tree → String
  | leaf _ text _ => text
  | branch _ _ _ children => textOfList children

/-- The texts of a list of trees, one after the other. -/
def textOfList : List Tree → String
  | [] => ""
  | tree :: rest => text tree ++ textOfList rest

end

end Tree

end SchemaGraft
