import SchemaGraft.Document.Definition
import SchemaGraft.Grammar.Document
import SchemaGraft.Text.Literal

/-!
# From trees to definitions

The definitions of a document are read off its syntax tree. Whatever lacks a part that it needs is
left out as a whole; a mistake was noted for it when the tree was built.

A name lies where its own token lies, everything else where its branch of the tree lies.
-/

set_option autoImplicit false

namespace SchemaGraft

namespace Tree

variable (file : FileId)

/-- The node of a value that was read off a branch. -/
def node? {α : Type} (tree : Tree) (value : α) : Option (Node α) :=
  match tree with
  | branch _ start stop _ => some (.ofLocation ⟨file, start, stop⟩ value)
  | leaf .. => none

/-! ## Names and descriptions -/

/-- The name that a token writes. -/
def nameOfLeaf? : Tree → Option Name
  | leaf _ text start => some ⟨text, some ⟨file, start, start + text.utf8ByteSize⟩⟩
  | branch .. => none

/-- The name that one of some branches holds. -/
def nameIn? (trees : List Tree) : Option Name := do
  let branch ← trees.find? (isBranch .name)
  let identifier ← branch.children.find? (isLeaf .identifier)
  identifier.nameOfLeaf? file

/-- The name of a branch. -/
def name? (tree : Tree) : Option Name := nameIn? file tree.children

/-- The description of a branch. -/
def description? (tree : Tree) : Option String := do
  let description ← tree.child? .description
  let literal ← description.child? .stringValue
  let token ← literal.firstText?
  return Text.stringValue token

/-! ## Types -/

/-- Whether a tree is a reference to a type. -/
def isType (tree : Tree) : Bool :=
  tree.isBranch .namedType || tree.isBranch .listType || tree.isBranch .nonNullType

mutual

/-- The reference to a type that a branch is. -/
def typeReference? : Tree → Option TypeReference
  | leaf .. => none
  | branch kind _ _ children =>
    match kind with
    | .namedType => (nameIn? file children).map .named
    | .listType => (firstType? children).map .list
    | .nonNullType =>
      match children.find? (isBranch .namedType) with
      | some named => (named.name? file).map .nonNullNamed
      | none => (firstItemType? children).map .nonNullList
    | _ => none

/-- The first reference to a type among some trees. -/
def firstType? : List Tree → Option TypeReference
  | [] => none
  | tree :: rest => if tree.isType then typeReference? tree else firstType? rest

/-- The item type of the first list type among some trees. -/
def firstItemType? : List Tree → Option TypeReference
  | [] => none
  | leaf .. :: rest => firstItemType? rest
  | branch kind _ _ children :: rest =>
    if kind == .listType then firstType? children else firstItemType? rest

end

/-- The type of a branch. -/
def type? (tree : Tree) : Option (Node TypeReference) := do
  let type ← tree.children.find? isType
  type.node? file (← typeReference? file type)

/-! ## Values -/

/-- Whether a tree is a value. -/
def isValue : Tree → Bool
  | leaf .. => false
  | branch kind _ _ _ =>
    match kind with
    | .variableReference | .intValue | .floatValue | .stringValue | .booleanValue | .nullValue
    | .enumValue | .listValue | .objectValue => true
    | _ => false

mutual

/-- The value that a branch is. -/
def value? : Tree → Option (Node Value)
  | leaf .. => none
  | branch kind start stop children =>
    let value : Option Value :=
      match kind with
      | .variableReference => (nameIn? file children).map .variableReference
      | .intValue => (firstTextOfList? children).map .int
      | .floatValue => (firstTextOfList? children).map .float
      | .stringValue =>
        (firstTextOfList? children).map fun token => .string (Text.stringValue token)
      | .booleanValue => (firstTextOfList? children).map fun word => .boolean (word == "true")
      | .nullValue => some .null
      | .enumValue => (nameIn? file children).map .enumValue
      | .listValue => some (.list (values children))
      | .objectValue => some (.object (valueFields children))
      | _ => none
    value.map (.ofLocation ⟨file, start, stop⟩)

/-- The values among some trees. -/
def values : List Tree → List (Node Value)
  | [] => []
  | tree :: rest =>
    match value? tree with
    | some value => value :: values rest
    | none => values rest

/-- The first value among some trees. -/
def firstValue? : List Tree → Option (Node Value)
  | [] => none
  | tree :: rest => if tree.isValue then value? tree else firstValue? rest

/-- The fields of an object value among some trees. -/
def valueFields : List Tree → List (Name × Node Value)
  | [] => []
  | leaf .. :: rest => valueFields rest
  | branch kind _ _ children :: rest =>
    match kind with
    | .objectField =>
      match nameIn? file children, firstValue? children with
      | some name, some value => (name, value) :: valueFields rest
      | _, _ => valueFields rest
    | _ => valueFields rest

end

/-! ## Directive applications -/

/-- The argument that a branch gives. -/
def argument? (tree : Tree) : Option (Node Argument) := do
  let name ← tree.name? file
  let value ← firstValue? file tree.children
  tree.node? file ⟨name, value⟩

/-- The directive application that a branch is. -/
def directive? (tree : Tree) : Option (Node Directive) := do
  let name ← tree.name? file
  let arguments := (tree.child? .arguments).elim [] fun arguments =>
    (arguments.childrenOf .argument).filterMap (argument? file)
  tree.node? file ⟨name, arguments⟩

/-- The directive applications of a branch. -/
def directives (tree : Tree) : Directives :=
  (tree.child? .directives).elim [] fun directives =>
    (directives.childrenOf .directive).filterMap (directive? file)

/-! ## Members of types -/

/-- The value that is used where none is given: none, or a branch that may hold no value. -/
def default? (tree : Tree) : Option (Option (Node Value)) :=
  match tree.child? .defaultValue with
  | none => some none
  | some default => (firstValue? file default.children).map some

/-- The argument or input field that a branch defines. -/
def inputValue? (tree : Tree) : Option (Node InputValueDefinition) := do
  let default ← tree.default? file
  let name ← tree.name? file
  let type ← tree.type? file
  tree.node? file ⟨tree.description?, name, type, default, tree.directives file⟩

/-- The arguments or input fields that a branch of a kind defines. -/
def inputValues (kind : TreeKind) (tree : Tree) : List (Node InputValueDefinition) :=
  (tree.child? kind).elim [] fun values =>
    (values.childrenOf .inputValueDefinition).filterMap (inputValue? file)

/-- The field that a branch defines. -/
def field? (tree : Tree) : Option (Node FieldDefinition) := do
  let name ← tree.name? file
  let type ← tree.type? file
  tree.node? file
    ⟨tree.description?, name, tree.inputValues file .argumentsDefinition, type,
      tree.directives file⟩

/-- The fields that a branch defines. -/
def fields (tree : Tree) : List (Node FieldDefinition) :=
  (tree.child? .fieldsDefinition).elim [] fun fields =>
    (fields.childrenOf .fieldDefinition).filterMap (field? file)

/-- The value of an enum type that a branch defines. -/
def enumValueDefinition? (tree : Tree) : Option (Node EnumValueDefinition) := do
  let value ← tree.child? .enumValue
  let name ← value.name? file
  tree.node? file ⟨tree.description?, name, tree.directives file⟩

/-- The values of an enum type that a branch defines. -/
def enumValueDefinitions (tree : Tree) : List (Node EnumValueDefinition) :=
  (tree.child? .enumValuesDefinition).elim [] fun values =>
    (values.childrenOf .enumValueDefinition).filterMap (enumValueDefinition? file)

/-- The names of types in a branch of a kind. -/
def namedTypes (kind : TreeKind) (tree : Tree) : List Name :=
  (tree.child? kind).elim [] fun types => (types.childrenOf .namedType).filterMap (name? file)

/-! ## Definitions -/

/-- The scalar type that a branch defines. -/
def scalarDefinition? (tree : Tree) : Option (Node ScalarDefinition) := do
  let name ← tree.name? file
  tree.node? file ⟨tree.description?, name, tree.directives file⟩

/-- The object or interface type that a branch defines. -/
def objectLikeDefinition? (tree : Tree) : Option (Node ObjectLikeDefinition) := do
  let name ← tree.name? file
  tree.node? file
    ⟨tree.description?, name, tree.namedTypes file .implementsInterfaces, tree.directives file,
      tree.fields file⟩

/-- The union type that a branch defines. -/
def unionDefinition? (tree : Tree) : Option (Node UnionDefinition) := do
  let name ← tree.name? file
  tree.node? file
    ⟨tree.description?, name, tree.directives file, tree.namedTypes file .unionMembers⟩

/-- The enum type that a branch defines. -/
def enumDefinition? (tree : Tree) : Option (Node EnumDefinition) := do
  let name ← tree.name? file
  tree.node? file
    ⟨tree.description?, name, tree.directives file, tree.enumValueDefinitions file⟩

/-- The input object type that a branch defines. -/
def inputObjectDefinition? (tree : Tree) : Option (Node InputObjectDefinition) := do
  let name ← tree.name? file
  tree.node? file
    ⟨tree.description?, name, tree.directives file,
      tree.inputValues file .inputFieldsDefinition⟩

/-- The places where a directive may be applied, in a branch that defines it. -/
def directiveLocations (tree : Tree) : List DirectiveLocation :=
  (tree.child? .directiveLocations).elim [] fun locations =>
    (locations.childrenOf .directiveLocation).filterMap fun location =>
      location.firstText?.bind DirectiveLocation.ofText?

/-- The directive that a branch defines. -/
def directiveDefinition? (tree : Tree) : Option (Node DirectiveDefinition) := do
  let name ← tree.name? file
  tree.node? file
    ⟨tree.description?, name, tree.inputValues file .argumentsDefinition,
      tree.children.any (isLeaf .repeatable), tree.directiveLocations⟩

/-- The extension of an object type that a branch is. -/
def objectExtension? (tree : Tree) : Option (Node ObjectExtension) := do
  let name ← tree.name? file
  tree.node? file
    ⟨name, tree.namedTypes file .implementsInterfaces, tree.directives file, tree.fields file⟩

/-- The extension of a type of another kind that a branch is. -/
def otherExtension? (keyword : ExtensionKeyword) (tree : Tree) : Option (Node OtherExtension) := do
  let name ← tree.name? file
  tree.node? file ⟨keyword, name⟩

/-- The operation that a branch is. -/
def operation? (tree : Tree) : Option (Node UnrelatedDefinition) :=
  tree.node? file (.operation (tree.name? file))

/-- The fragment that a branch is. -/
def fragment? (tree : Tree) : Option (Node UnrelatedDefinition) := do
  let name ← (← tree.child? .fragmentName).name? file
  tree.node? file (.fragment name)

/-- The definition that a branch is. -/
def definition? (tree : Tree) : Option Definition :=
  match tree with
  | leaf .. => none
  | branch kind _ _ _ =>
    match kind with
    | .directiveDefinition => (tree.directiveDefinition? file).map .directive
    | .scalarDefinition => (tree.scalarDefinition? file).map fun node => .type (.scalar node)
    | .objectDefinition => (tree.objectLikeDefinition? file).map fun node => .type (.object node)
    | .interfaceDefinition =>
      (tree.objectLikeDefinition? file).map fun node => .type (.interface node)
    | .unionDefinition => (tree.unionDefinition? file).map fun node => .type (.union node)
    | .enumDefinition => (tree.enumDefinition? file).map fun node => .type (.enum node)
    | .inputObjectDefinition =>
      (tree.inputObjectDefinition? file).map fun node => .type (.inputObject node)
    | .objectExtension => (tree.objectExtension? file).map .objectExtension
    | .scalarExtension => (tree.otherExtension? file .scalar).map .otherExtension
    | .interfaceExtension => (tree.otherExtension? file .interface).map .otherExtension
    | .unionExtension => (tree.otherExtension? file .union).map .otherExtension
    | .enumExtension => (tree.otherExtension? file .enum).map .otherExtension
    | .inputObjectExtension => (tree.otherExtension? file .inputObject).map .otherExtension
    | .operationDefinition => (tree.operation? file).map .unrelated
    | .fragmentDefinition => (tree.fragment? file).map .unrelated
    | .schemaDefinition => (tree.node? file .schema).map .unrelated
    | .schemaExtension => (tree.node? file .schemaExtension).map .unrelated
    | _ => none

/-- The definitions of a document. -/
def definitions (tree : Tree) : List Definition := tree.children.filterMap (definition? file)

end Tree

end SchemaGraft
