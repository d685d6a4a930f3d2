import SchemaGraft.Proofs.Reading.Correspondence

/-!
# Trees of definitions

The relations between trees and what is read off them, from the members of types up to whole
definitions. See `ReadsDefinition` for what becomes of the definitions of a document.
-/

set_option autoImplicit false

namespace SchemaGraft

open SchemaGraft.Tree

/-! ## Arguments and input fields -/

/-- A default value, or none. -/
inductive ReadsDefault (file : FileId) : List Tree → Option (Node Value) → Prop where
  | absent : ReadsDefault file [] none
  | present {start stop : Nat} {children : List Tree} {tree : Tree} {value : Node Value}
      (content : telling children = [tree]) (reads : ReadsValue file tree value) :
      ReadsDefault file [.branch .defaultValue start stop children] (some value)

/-- The tree of the definition of an argument or input field. -/
inductive ReadsInput (file : FileId) : Tree → Node InputValueDefinition → Prop where
  | mk {start stop : Nat} {children descriptions defaults directives : List Tree}
      {nameTree typeTree : Tree} {description : Option String} {name : Name}
      {type : Node TypeReference} {default : Option (Node Value)} {applied : Directives}
      (content : telling children =
        descriptions ++ ([nameTree] ++ ([typeTree] ++ (defaults ++ directives))))
      (described : ReadsDescription descriptions description)
      (named : ReadsName file nameTree name) (typed : ReadsType file typeTree type)
      (defaulted : ReadsDefault file defaults default)
      (applies : ReadsDirectives file directives applied) :
      ReadsInput file (.branch .inputValueDefinition start stop children)
        (.ofLocation ⟨file, start, stop⟩ ⟨description, name, type, default, applied⟩)

section Inputs

variable {file : FileId}

theorem ReadsDefault.inSlot {trees : List Tree} {default : Option (Node Value)}
    (reads : ReadsDefault file trees default) : InSlot [.defaultValue] trees := by
  cases reads <;> simp [InSlot]

theorem ReadsDefault.default?_eq {tree : Tree} {trees : List Tree}
    {default : Option (Node Value)} (reads : ReadsDefault file trees default)
    (first : tree.child? .defaultValue = trees.head?) : tree.default? file = some default := by
  unfold default?
  rw [first]
  cases reads with
  | absent => rfl
  | present content reads =>
      rw [List.head?_cons]
      simp only
      rw [Tree.children, firstValue?_telling, content, firstValue?, reads.isValue_eq, if_pos rfl,
        reads.value?_eq]
      rfl

/-- **An argument or input field is read off its tree.** -/
theorem ReadsInput.inputValue?_eq {tree : Tree} {input : Node InputValueDefinition}
    (reads : ReadsInput file tree input) :
    tree.onKind (· == .inputValueDefinition) = true ∧ inputValue? file tree = some input := by
  cases reads with
  | mk content described named typed defaulted applies =>
      refine ⟨rfl, ?_⟩
      rw [inputValue?, defaulted.default?_eq, name?, Tree.children, named.nameIn?_eq,
        typed.type?_eq, described.description?_eq, applies.directives_eq]
      · rfl
      all_goals
        simp (disch := decide) only [child?_branch, Tree.children, content, isType_eq,
          List.find?_append, described.inSlot.find?_eq, described.inSlot.find?_eq_none,
          named.inSlot.find?_eq, named.inSlot.find?_eq_none, typed.inSlot.find?_eq,
          typed.inSlot.find?_eq_none, defaulted.inSlot.find?_eq, defaulted.inSlot.find?_eq_none,
          applies.inSlot.find?_eq, applies.inSlot.find?_eq_none, Option.none_or, Option.or_none,
          List.head?_cons]

/-- Arguments or input fields are read off the group that holds them. -/
theorem ReadsGroup.inputValues_eq {kind : TreeKind} {tree : Tree} {trees : List Tree}
    {inputs : List (Node InputValueDefinition)}
    (reads : ReadsGroup kind (ReadsInput file) trees inputs)
    (first : tree.child? kind = trees.head?) : tree.inputValues file kind = inputs :=
  reads.read_eq (fun _ _ reads => reads.inputValue?_eq) first

end Inputs

/-! ## Fields -/

/-- The tree of the definition of a field. -/
inductive ReadsField (file : FileId) : Tree → Node FieldDefinition → Prop where
  | mk {start stop : Nat} {children descriptions arguments directives : List Tree}
      {nameTree typeTree : Tree} {description : Option String} {name : Name}
      {inputs : List (Node InputValueDefinition)} {type : Node TypeReference}
      {applied : Directives}
      (content : telling children =
        descriptions ++ ([nameTree] ++ (arguments ++ ([typeTree] ++ directives))))
      (described : ReadsDescription descriptions description)
      (named : ReadsName file nameTree name)
      (takes : ReadsGroup .argumentsDefinition (ReadsInput file) arguments inputs)
      (typed : ReadsType file typeTree type)
      (applies : ReadsDirectives file directives applied) :
      ReadsField file (.branch .fieldDefinition start stop children)
        (.ofLocation ⟨file, start, stop⟩ ⟨description, name, inputs, type, applied⟩)

/-- The trees of the fields of a type. -/
abbrev ReadsFields (file : FileId) : List Tree → List (Node FieldDefinition) → Prop :=
  ReadsGroup .fieldsDefinition (ReadsField file)

section Fields

variable {file : FileId}

/-- **A field is read off its tree.** -/
theorem ReadsField.field?_eq {tree : Tree} {field : Node FieldDefinition}
    (reads : ReadsField file tree field) :
    tree.onKind (· == .fieldDefinition) = true ∧ field? file tree = some field := by
  cases reads with
  | mk content described named takes typed applies =>
      refine ⟨rfl, ?_⟩
      rw [field?, name?, Tree.children, named.nameIn?_eq, typed.type?_eq,
        described.description?_eq, takes.inputValues_eq, applies.directives_eq]
      · rfl
      all_goals
        simp (disch := decide) only [child?_branch, Tree.children, content, isType_eq,
          List.find?_append, described.inSlot.find?_eq, described.inSlot.find?_eq_none,
          named.inSlot.find?_eq, named.inSlot.find?_eq_none, takes.inSlot.find?_eq,
          takes.inSlot.find?_eq_none, typed.inSlot.find?_eq, typed.inSlot.find?_eq_none,
          applies.inSlot.find?_eq, applies.inSlot.find?_eq_none, Option.none_or, Option.or_none,
          List.head?_cons]

theorem ReadsFields.fields_eq {tree : Tree} {trees : List Tree}
    {fields : List (Node FieldDefinition)} (reads : ReadsFields file trees fields)
    (first : tree.child? .fieldsDefinition = trees.head?) : tree.fields file = fields :=
  reads.read_eq (fun _ _ reads => reads.field?_eq) first

end Fields

/-! ## Values of enum types -/

/-- The tree of the definition of a value of an enum type. -/
inductive ReadsEnumValue (file : FileId) : Tree → Node EnumValueDefinition → Prop where
  | mk {start stop from_ upto : Nat} {children descriptions inner directives : List Tree}
      {nameTree : Tree} {description : Option String} {name : Name} {applied : Directives}
      (content : telling children =
        descriptions ++ ([.branch .enumValue from_ upto inner] ++ directives))
      (described : ReadsDescription descriptions description)
      (single : telling inner = [nameTree]) (named : ReadsName file nameTree name)
      (free : IsFreeName name.text) (applies : ReadsDirectives file directives applied) :
      ReadsEnumValue file (.branch .enumValueDefinition start stop children)
        (.ofLocation ⟨file, start, stop⟩ ⟨description, name, applied⟩)

section EnumValues

variable {file : FileId}

/-- **A value of an enum type is read off its tree.** -/
theorem ReadsEnumValue.enumValueDefinition?_eq {tree : Tree} {value : Node EnumValueDefinition}
    (reads : ReadsEnumValue file tree value) :
    tree.onKind (· == .enumValueDefinition) = true ∧
      enumValueDefinition? file tree = some value := by
  cases reads with
  | @mk start stop from_ upto children descriptions inner directives nameTree description name
      applied content described single named free applies =>
      refine ⟨rfl, ?_⟩
      have valueSlot : InSlot [.enumValue] [.branch .enumValue from_ upto inner] := by
        simp [InSlot]
      have found : (branch .enumValueDefinition start stop children).child? .enumValue =
          some (.branch .enumValue from_ upto inner) := by
        simp (disch := decide) only [child?_branch, content, List.find?_append,
          described.inSlot.find?_eq_none, valueSlot.find?_eq, applies.inSlot.find?_eq_none,
          Option.none_or, Option.or_none, List.head?_cons]
      rw [enumValueDefinition?, found, Option.bind_eq_bind, Option.bind_some, name?,
        Tree.children, named.nameIn?_eq, described.description?_eq, applies.directives_eq]
      · rfl
      · simp (disch := decide) only [child?_branch, content, List.find?_append,
          described.inSlot.find?_eq_none, valueSlot.find?_eq_none, applies.inSlot.find?_eq,
          Option.none_or]
      · simp (disch := decide) only [child?_branch, content, List.find?_append,
          described.inSlot.find?_eq, valueSlot.find?_eq_none, applies.inSlot.find?_eq_none,
          Option.or_none]
      · rw [single]
        exact named.inSlot.find?_eq rfl

theorem ReadsGroup.enumValueDefinitions_eq {tree : Tree} {trees : List Tree}
    {values : List (Node EnumValueDefinition)}
    (reads : ReadsGroup .enumValuesDefinition (ReadsEnumValue file) trees values)
    (first : tree.child? .enumValuesDefinition = trees.head?) :
    tree.enumValueDefinitions file = values :=
  reads.read_eq (fun _ _ reads => reads.enumValueDefinition?_eq) first

end EnumValues

/-! ## Lists of names -/

/-- The tree of a type in a list of them. -/
inductive ReadsNamedType (file : FileId) : Tree → Name → Prop where
  | mk {start stop : Nat} {children : List Tree} {tree : Tree} {name : Name}
      (content : telling children = [tree]) (named : ReadsName file tree name) :
      ReadsNamedType file (.branch .namedType start stop children) name

/-- The tree of a place where a directive may be applied. -/
inductive ReadsDirectiveLocation : Tree → DirectiveLocation → Prop where
  | mk {start stop place : Nat} {text : String} {location : DirectiveLocation}
      (known : DirectiveLocation.ofText? text = some location) :
      ReadsDirectiveLocation (.branch .directiveLocation start stop [.leaf .part text place])
        location

section Lists

variable {file : FileId}

theorem ReadsNamedType.name?_eq {tree : Tree} {name : Name}
    (reads : ReadsNamedType file tree name) :
    tree.onKind (· == .namedType) = true ∧ name? file tree = some name := by
  cases reads with
  | mk content named =>
      refine ⟨rfl, named.nameIn?_eq ?_⟩
      rw [Tree.children, content]
      exact named.inSlot.find?_eq rfl

theorem ReadsGroup.namedTypes_eq {kind : TreeKind} {tree : Tree} {trees : List Tree}
    {names : List Name} (reads : ReadsGroup kind (ReadsNamedType file) trees names)
    (first : tree.child? kind = trees.head?) : tree.namedTypes file kind = names :=
  reads.read_eq (fun _ _ reads => reads.name?_eq) first

theorem ReadsDirectiveLocation.ofText?_eq {tree : Tree} {location : DirectiveLocation}
    (reads : ReadsDirectiveLocation tree location) :
    tree.onKind (· == .directiveLocation) = true ∧
      (tree.firstText?.bind DirectiveLocation.ofText?) = some location := by
  cases reads with
  | mk known => exact ⟨rfl, known⟩

theorem ReadsGroup.directiveLocations_eq {tree : Tree} {trees : List Tree}
    {locations : List DirectiveLocation}
    (reads : ReadsGroup .directiveLocations ReadsDirectiveLocation trees locations)
    (first : tree.child? .directiveLocations = trees.head?) :
    tree.directiveLocations = locations :=
  reads.read_eq (fun _ _ reads => reads.ofText?_eq) first

end Lists

/-! ## Definitions -/

/-- The trees of a scalar type. -/
inductive ReadsScalar (file : FileId) : List Tree → ScalarDefinition → Prop where
  | mk {descriptions directives : List Tree} {nameTree : Tree} {description : Option String}
      {name : Name} {applied : Directives} (described : ReadsDescription descriptions description)
      (named : ReadsName file nameTree name) (applies : ReadsDirectives file directives applied) :
      ReadsScalar file (descriptions ++ ([nameTree] ++ directives)) ⟨description, name, applied⟩

/-- The trees of an object or interface type. -/
inductive ReadsObjectLike (file : FileId) : List Tree → ObjectLikeDefinition → Prop where
  | mk {descriptions implements directives members : List Tree} {nameTree : Tree}
      {description : Option String} {name : Name} {interfaces : List Name} {applied : Directives}
      {fields : List (Node FieldDefinition)}
      (described : ReadsDescription descriptions description)
      (named : ReadsName file nameTree name)
      (lists : ReadsGroup .implementsInterfaces (ReadsNamedType file) implements interfaces)
      (applies : ReadsDirectives file directives applied)
      (defines : ReadsFields file members fields) :
      ReadsObjectLike file
        (descriptions ++ ([nameTree] ++ (implements ++ (directives ++ members))))
        ⟨description, name, interfaces, applied, fields⟩

/-- The trees of a union type. -/
inductive ReadsUnion (file : FileId) : List Tree → UnionDefinition → Prop where
  | mk {descriptions directives unionMembers : List Tree} {nameTree : Tree}
      {description : Option String} {name : Name} {applied : Directives} {members : List Name}
      (described : ReadsDescription descriptions description)
      (named : ReadsName file nameTree name) (applies : ReadsDirectives file directives applied)
      (lists : ReadsGroup .unionMembers (ReadsNamedType file) unionMembers members) :
      ReadsUnion file (descriptions ++ ([nameTree] ++ (directives ++ unionMembers)))
        ⟨description, name, applied, members⟩

/-- The trees of an enum type. -/
inductive ReadsEnum (file : FileId) : List Tree → EnumDefinition → Prop where
  | mk {descriptions directives members : List Tree} {nameTree : Tree}
      {description : Option String} {name : Name} {applied : Directives}
      {values : List (Node EnumValueDefinition)}
      (described : ReadsDescription descriptions description)
      (named : ReadsName file nameTree name) (applies : ReadsDirectives file directives applied)
      (defines : ReadsGroup .enumValuesDefinition (ReadsEnumValue file) members values) :
      ReadsEnum file (descriptions ++ ([nameTree] ++ (directives ++ members)))
        ⟨description, name, applied, values⟩

/-- The trees of an input object type. -/
inductive ReadsInputObject (file : FileId) : List Tree → InputObjectDefinition → Prop where
  | mk {descriptions directives members : List Tree} {nameTree : Tree}
      {description : Option String} {name : Name} {applied : Directives}
      {fields : List (Node InputValueDefinition)}
      (described : ReadsDescription descriptions description)
      (named : ReadsName file nameTree name) (applies : ReadsDirectives file directives applied)
      (defines : ReadsGroup .inputFieldsDefinition (ReadsInput file) members fields) :
      ReadsInputObject file (descriptions ++ ([nameTree] ++ (directives ++ members)))
        ⟨description, name, applied, fields⟩

/-- The word that makes a directive repeatable, or nothing. -/
inductive ReadsRepeatable : List Tree → Bool → Prop where
  | absent : ReadsRepeatable [] false
  | present {text : String} {place : Nat} : ReadsRepeatable [.leaf .repeatable text place] true

/-- The trees of the definition of a directive. -/
inductive ReadsDirectiveDefinition (file : FileId) : List Tree → DirectiveDefinition → Prop where
  | mk {descriptions arguments words places : List Tree} {nameTree : Tree}
      {description : Option String} {name : Name} {inputs : List (Node InputValueDefinition)}
      {repeatable : Bool} {locations : List DirectiveLocation}
      (described : ReadsDescription descriptions description)
      (named : ReadsName file nameTree name)
      (takes : ReadsGroup .argumentsDefinition (ReadsInput file) arguments inputs)
      (repeats : ReadsRepeatable words repeatable)
      (lists : ReadsGroup .directiveLocations ReadsDirectiveLocation places locations)
      (some : locations ≠ []) :
      ReadsDirectiveDefinition file
        (descriptions ++ ([nameTree] ++ (arguments ++ (words ++ places))))
        ⟨description, name, inputs, repeatable, locations⟩

/-- The trees of the extension of an object type. -/
inductive ReadsObjectExtension (file : FileId) : List Tree → ObjectExtension → Prop where
  | mk {implements directives members : List Tree} {nameTree : Tree} {name : Name}
      {interfaces : List Name} {applied : Directives} {fields : List (Node FieldDefinition)}
      (named : ReadsName file nameTree name)
      (lists : ReadsGroup .implementsInterfaces (ReadsNamedType file) implements interfaces)
      (applies : ReadsDirectives file directives applied)
      (defines : ReadsFields file members fields) :
      ReadsObjectExtension file ([nameTree] ++ (implements ++ (directives ++ members)))
        ⟨name, interfaces, applied, fields⟩

/-- The kind of the branches of the extensions that a word begins. -/
def ExtensionKeyword.treeKind : ExtensionKeyword → TreeKind
  | scalar => .scalarExtension
  | interface => .interfaceExtension
  | union => .unionExtension
  | enum => .enumExtension
  | inputObject => .inputObjectExtension

/-- The tree of a definition. Extensions of types that are no object types, operations, fragments
and what is said of the schema itself are only noted. -/
inductive ReadsDefinition (file : FileId) : Tree → Definition → Prop where
  | scalar {start stop : Nat} {children trees : List Tree} {definition : ScalarDefinition}
      (content : telling children = trees) (reads : ReadsScalar file trees definition) :
      ReadsDefinition file (.branch .scalarDefinition start stop children)
        (.type (.scalar (.ofLocation ⟨file, start, stop⟩ definition)))
  | object {start stop : Nat} {children trees : List Tree} {definition : ObjectLikeDefinition}
      (content : telling children = trees) (reads : ReadsObjectLike file trees definition) :
      ReadsDefinition file (.branch .objectDefinition start stop children)
        (.type (.object (.ofLocation ⟨file, start, stop⟩ definition)))
  | interface {start stop : Nat} {children trees : List Tree} {definition : ObjectLikeDefinition}
      (content : telling children = trees) (reads : ReadsObjectLike file trees definition) :
      ReadsDefinition file (.branch .interfaceDefinition start stop children)
        (.type (.interface (.ofLocation ⟨file, start, stop⟩ definition)))
  | union {start stop : Nat} {children trees : List Tree} {definition : UnionDefinition}
      (content : telling children = trees) (reads : ReadsUnion file trees definition) :
      ReadsDefinition file (.branch .unionDefinition start stop children)
        (.type (.union (.ofLocation ⟨file, start, stop⟩ definition)))
  | enum {start stop : Nat} {children trees : List Tree} {definition : EnumDefinition}
      (content : telling children = trees) (reads : ReadsEnum file trees definition) :
      ReadsDefinition file (.branch .enumDefinition start stop children)
        (.type (.enum (.ofLocation ⟨file, start, stop⟩ definition)))
  | inputObject {start stop : Nat} {children trees : List Tree}
      {definition : InputObjectDefinition} (content : telling children = trees)
      (reads : ReadsInputObject file trees definition) :
      ReadsDefinition file (.branch .inputObjectDefinition start stop children)
        (.type (.inputObject (.ofLocation ⟨file, start, stop⟩ definition)))
  | directive {start stop : Nat} {children trees : List Tree} {definition : DirectiveDefinition}
      (content : telling children = trees)
      (reads : ReadsDirectiveDefinition file trees definition) :
      ReadsDefinition file (.branch .directiveDefinition start stop children)
        (.directive (.ofLocation ⟨file, start, stop⟩ definition))
  | objectExtension {start stop : Nat} {children trees : List Tree} {extension : ObjectExtension}
      (content : telling children = trees) (reads : ReadsObjectExtension file trees extension) :
      ReadsDefinition file (.branch .objectExtension start stop children)
        (.objectExtension (.ofLocation ⟨file, start, stop⟩ extension))
  | otherExtension {start stop : Nat} {children rest : List Tree} {nameTree : Tree} {name : Name}
      (keyword : ExtensionKeyword) (content : telling children = nameTree :: rest)
      (named : ReadsName file nameTree name) :
      ReadsDefinition file (.branch keyword.treeKind start stop children)
        (.otherExtension (.ofLocation ⟨file, start, stop⟩ ⟨keyword, name⟩))
  | operation {start stop : Nat} {children : List Tree} :
      ReadsDefinition file (.branch .operationDefinition start stop children)
        (.unrelated (.ofLocation ⟨file, start, stop⟩ (.operation (nameIn? file children))))
  | fragment {start stop from_ upto : Nat} {children inner rest : List Tree} {nameTree : Tree}
      {name : Name} (content : telling children = .branch .fragmentName from_ upto inner :: rest)
      (single : telling inner = [nameTree]) (named : ReadsName file nameTree name) :
      ReadsDefinition file (.branch .fragmentDefinition start stop children)
        (.unrelated (.ofLocation ⟨file, start, stop⟩ (.fragment name)))
  | schema {start stop : Nat} {children : List Tree} :
      ReadsDefinition file (.branch .schemaDefinition start stop children)
        (.unrelated (.ofLocation ⟨file, start, stop⟩ .schema))
  | schemaExtension {start stop : Nat} {children : List Tree} :
      ReadsDefinition file (.branch .schemaExtension start stop children)
        (.unrelated (.ofLocation ⟨file, start, stop⟩ .schemaExtension))

section Definitions

variable {file : FileId}

theorem ReadsRepeatable.find?_eq_none {trees : List Tree} {repeatable : Bool}
    (reads : ReadsRepeatable trees repeatable) (holds : TreeKind → Bool) :
    trees.find? (onKind holds) = none := by
  cases reads <;> rfl

theorem any_repeatable_eq_false {kinds : List TreeKind} {trees : List Tree}
    (inSlot : InSlot kinds trees) : trees.any (isLeaf .repeatable) = false := by
  refine List.any_eq_false.2 fun tree member => ?_
  obtain ⟨kind, _, start, stop, children, rfl⟩ := inSlot tree member
  simp [isLeaf]

theorem ReadsRepeatable.any_eq {trees : List Tree} {repeatable : Bool}
    (reads : ReadsRepeatable trees repeatable) : trees.any (isLeaf .repeatable) = repeatable := by
  cases reads <;> rfl

variable {kind : TreeKind} {start stop : Nat} {children : List Tree}

theorem ReadsScalar.scalarDefinition?_eq {definition : ScalarDefinition}
    (reads : ReadsScalar file (telling children) definition) :
    scalarDefinition? file (.branch kind start stop children) =
      some (.ofLocation ⟨file, start, stop⟩ definition) := by
  generalize content : telling children = trees at reads
  cases reads with
  | mk described named applies =>
      rw [scalarDefinition?, name?, Tree.children, named.nameIn?_eq, described.description?_eq,
        applies.directives_eq]
      · rfl
      all_goals
        simp (disch := decide) only [child?_branch, content, List.find?_append,
          described.inSlot.find?_eq, described.inSlot.find?_eq_none, named.inSlot.find?_eq,
          named.inSlot.find?_eq_none, applies.inSlot.find?_eq, applies.inSlot.find?_eq_none,
          Option.none_or, Option.or_none, List.head?_cons]

theorem ReadsObjectLike.objectLikeDefinition?_eq {definition : ObjectLikeDefinition}
    (reads : ReadsObjectLike file (telling children) definition) :
    objectLikeDefinition? file (.branch kind start stop children) =
      some (.ofLocation ⟨file, start, stop⟩ definition) := by
  generalize content : telling children = trees at reads
  cases reads with
  | mk described named lists applies defines =>
      rw [objectLikeDefinition?, name?, Tree.children, named.nameIn?_eq, described.description?_eq,
        lists.namedTypes_eq, applies.directives_eq, defines.fields_eq]
      · rfl
      all_goals
        simp (disch := decide) only [child?_branch, content, List.find?_append,
          described.inSlot.find?_eq, described.inSlot.find?_eq_none, named.inSlot.find?_eq,
          named.inSlot.find?_eq_none, lists.inSlot.find?_eq, lists.inSlot.find?_eq_none,
          applies.inSlot.find?_eq, applies.inSlot.find?_eq_none, defines.inSlot.find?_eq,
          defines.inSlot.find?_eq_none,
          Option.none_or, Option.or_none, List.head?_cons]

theorem ReadsUnion.unionDefinition?_eq {definition : UnionDefinition}
    (reads : ReadsUnion file (telling children) definition) :
    unionDefinition? file (.branch kind start stop children) =
      some (.ofLocation ⟨file, start, stop⟩ definition) := by
  generalize content : telling children = trees at reads
  cases reads with
  | mk described named applies lists =>
      rw [unionDefinition?, name?, Tree.children, named.nameIn?_eq, described.description?_eq,
        applies.directives_eq, lists.namedTypes_eq]
      · rfl
      all_goals
        simp (disch := decide) only [child?_branch, content, List.find?_append,
          described.inSlot.find?_eq, described.inSlot.find?_eq_none, named.inSlot.find?_eq,
          named.inSlot.find?_eq_none, applies.inSlot.find?_eq, applies.inSlot.find?_eq_none,
          lists.inSlot.find?_eq, lists.inSlot.find?_eq_none,
          Option.none_or, Option.or_none, List.head?_cons]

theorem ReadsEnum.enumDefinition?_eq {definition : EnumDefinition}
    (reads : ReadsEnum file (telling children) definition) :
    enumDefinition? file (.branch kind start stop children) =
      some (.ofLocation ⟨file, start, stop⟩ definition) := by
  generalize content : telling children = trees at reads
  cases reads with
  | mk described named applies defines =>
      rw [enumDefinition?, name?, Tree.children, named.nameIn?_eq, described.description?_eq,
        applies.directives_eq, defines.enumValueDefinitions_eq]
      · rfl
      all_goals
        simp (disch := decide) only [child?_branch, content, List.find?_append,
          described.inSlot.find?_eq, described.inSlot.find?_eq_none, named.inSlot.find?_eq,
          named.inSlot.find?_eq_none, applies.inSlot.find?_eq, applies.inSlot.find?_eq_none,
          defines.inSlot.find?_eq, defines.inSlot.find?_eq_none,
          Option.none_or, Option.or_none, List.head?_cons]

theorem ReadsInputObject.inputObjectDefinition?_eq {definition : InputObjectDefinition}
    (reads : ReadsInputObject file (telling children) definition) :
    inputObjectDefinition? file (.branch kind start stop children) =
      some (.ofLocation ⟨file, start, stop⟩ definition) := by
  generalize content : telling children = trees at reads
  cases reads with
  | mk described named applies defines =>
      rw [inputObjectDefinition?, name?, Tree.children, named.nameIn?_eq, described.description?_eq,
        applies.directives_eq, defines.inputValues_eq]
      · rfl
      all_goals
        simp (disch := decide) only [child?_branch, content, List.find?_append,
          described.inSlot.find?_eq, described.inSlot.find?_eq_none, named.inSlot.find?_eq,
          named.inSlot.find?_eq_none, applies.inSlot.find?_eq, applies.inSlot.find?_eq_none,
          defines.inSlot.find?_eq, defines.inSlot.find?_eq_none,
          Option.none_or, Option.or_none, List.head?_cons]

theorem ReadsObjectExtension.objectExtension?_eq {extension : ObjectExtension}
    (reads : ReadsObjectExtension file (telling children) extension) :
    objectExtension? file (.branch kind start stop children) =
      some (.ofLocation ⟨file, start, stop⟩ extension) := by
  generalize content : telling children = trees at reads
  cases reads with
  | mk named lists applies defines =>
      rw [objectExtension?, name?, Tree.children, named.nameIn?_eq, lists.namedTypes_eq,
        applies.directives_eq, defines.fields_eq]
      · rfl
      all_goals
        simp (disch := decide) only [child?_branch, content, List.find?_append,
          named.inSlot.find?_eq, named.inSlot.find?_eq_none, lists.inSlot.find?_eq,
          lists.inSlot.find?_eq_none, applies.inSlot.find?_eq, applies.inSlot.find?_eq_none,
          defines.inSlot.find?_eq, defines.inSlot.find?_eq_none,
          Option.none_or, Option.or_none, List.head?_cons]

theorem ReadsDirectiveDefinition.directiveDefinition?_eq {definition : DirectiveDefinition}
    (reads : ReadsDirectiveDefinition file (telling children) definition) :
    directiveDefinition? file (.branch kind start stop children) =
      some (.ofLocation ⟨file, start, stop⟩ definition) := by
  generalize content : telling children = trees at reads
  cases reads with
  | mk described named takes repeats lists _ =>
      rw [directiveDefinition?, name?, Tree.children, named.nameIn?_eq, described.description?_eq,
        takes.inputValues_eq, lists.directiveLocations_eq, any_repeatable, content]
      · simp only [List.any_append, any_repeatable_eq_false described.inSlot,
          any_repeatable_eq_false named.inSlot, any_repeatable_eq_false takes.inSlot,
          any_repeatable_eq_false lists.inSlot, repeats.any_eq, Bool.false_or, Bool.or_false]
        rfl
      all_goals
        simp (disch := decide) only [child?_branch, content, List.find?_append,
          described.inSlot.find?_eq, described.inSlot.find?_eq_none, named.inSlot.find?_eq,
          named.inSlot.find?_eq_none, takes.inSlot.find?_eq, takes.inSlot.find?_eq_none,
          repeats.find?_eq_none, lists.inSlot.find?_eq, lists.inSlot.find?_eq_none,
          Option.none_or, Option.or_none, List.head?_cons]

theorem otherExtension?_eq (keyword : ExtensionKeyword) {rest : List Tree} {nameTree : Tree}
    {name : Name} (content : telling children = nameTree :: rest)
    (named : ReadsName file nameTree name) :
    otherExtension? file keyword (.branch kind start stop children) =
      some (.ofLocation ⟨file, start, stop⟩ ⟨keyword, name⟩) := by
  rw [otherExtension?, name?, Tree.children, named.nameIn?_eq]
  · rfl
  · rw [content, List.find?_cons, named.onKind_eq]

theorem fragment?_eq {from_ upto : Nat} {inner rest : List Tree} {nameTree : Tree} {name : Name}
    (content : telling children = .branch .fragmentName from_ upto inner :: rest)
    (single : telling inner = [nameTree]) (named : ReadsName file nameTree name) :
    fragment? file (.branch kind start stop children) =
      some (.ofLocation ⟨file, start, stop⟩ (.fragment name)) := by
  have found : (branch kind start stop children).child? .fragmentName =
      some (.branch .fragmentName from_ upto inner) := by
    rw [child?_branch, content]
    rfl
  rw [fragment?, found, Option.bind_eq_bind, Option.bind_some, name?, Tree.children,
    named.nameIn?_eq]
  · rfl
  · rw [single]
    exact named.inSlot.find?_eq rfl

/-- **A definition is read off its tree.** -/
theorem ReadsDefinition.definition?_eq {tree : Tree} {definition : Definition}
    (reads : ReadsDefinition file tree definition) :
    definition? file tree = some definition := by
  cases reads with
  | scalar content reads =>
      subst content
      rw [definition?, reads.scalarDefinition?_eq]
      rfl
  | object content reads | interface content reads =>
      subst content
      rw [definition?, reads.objectLikeDefinition?_eq]
      rfl
  | union content reads =>
      subst content
      rw [definition?, reads.unionDefinition?_eq]
      rfl
  | enum content reads =>
      subst content
      rw [definition?, reads.enumDefinition?_eq]
      rfl
  | inputObject content reads =>
      subst content
      rw [definition?, reads.inputObjectDefinition?_eq]
      rfl
  | directive content reads =>
      subst content
      rw [definition?, reads.directiveDefinition?_eq]
      rfl
  | objectExtension content reads =>
      subst content
      rw [definition?, reads.objectExtension?_eq]
      rfl
  | otherExtension keyword content named =>
      cases keyword <;>
        exact congrArg (Option.map Definition.otherExtension) (otherExtension?_eq _ content named)
  | fragment content single named =>
      rw [definition?, fragment?_eq content single named]
      rfl
  | operation | schema | schemaExtension => rfl

/-- **The definitions of a document are read off its tree**, one for each tree that tells
something. -/
theorem ReadsAll.definitions_eq {definitions : List Definition}
    (all : ReadsAll (ReadsDefinition file) (telling children) definitions) :
    (Tree.branch kind start stop children).definitions file = definitions := by
  rw [← all.filterMap_eq fun _ _ reads => reads.definition?_eq, Tree.definitions, Tree.children]
  -- What tells nothing is no definition.
  generalize children = trees
  induction trees with
  | nil => rfl
  | cons tree rest ih =>
      cases tells : tree.tells with
      | true => rw [telling_cons_of_tells _ tells, List.filterMap_cons, List.filterMap_cons, ih]
      | false =>
          cases tree with
          | branch kind start stop children => cases tells
          | leaf role text start =>
              rw [telling_cons_of_not_tells _ tells, List.filterMap_cons_none rfl, ih]

end Definitions

end SchemaGraft
