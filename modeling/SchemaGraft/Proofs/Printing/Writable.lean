import SchemaGraft.Proofs.Reading.DefinitionTrees

/-!
# What can be written

Not every value of the types for documents has a text: names must be words, an enum value must not
be a word of its own, a directive must have a place to be applied. What was read off a tree can be
written (`ReadsValue.isWritable`, `ReadsDefinition.isWritable_type` and the lemmas between them), so
that everything in a document that was read without a problem can be.
-/

set_option autoImplicit false

namespace SchemaGraft

open SchemaGraft.Tree

/-! ## Values and types -/

/-- A constant value that can be written. -/
inductive Value.IsWritable : Value → Prop where
  | null : IsWritable .null
  | enumValue {name : Name} (word : IsWord .name name.text) (free : IsFreeName name.text) :
      IsWritable (.enumValue name)
  | string (text : String) : IsWritable (.string text)
  | float {digits : String} (word : IsWord .float digits) : IsWritable (.float digits)
  | int {digits : String} (word : IsWord .int digits) : IsWritable (.int digits)
  | boolean (value : Bool) : IsWritable (.boolean value)
  | list {items : List (Node Value)} (each : ∀ item ∈ items, IsWritable item.value) :
      IsWritable (.list items)
  | object {fields : List (Name × Node Value)}
      (names : ∀ field ∈ fields, IsWord .name field.1.text)
      (each : ∀ field ∈ fields, IsWritable field.2.value) : IsWritable (.object fields)

/-- The name inside a reference to a type can be written. -/
def TypeReference.IsWritable (reference : TypeReference) : Prop :=
  IsWord .name reference.innerName.text

/-! ## Directive applications -/

/-- An argument that is given can be written. -/
structure Argument.IsWritable (argument : Argument) : Prop where
  name : IsWord .name argument.name.text
  value : argument.value.value.IsWritable

/-- A directive application can be written. -/
structure Directive.IsWritable (directive : Directive) : Prop where
  name : IsWord .name directive.name.text
  arguments : ∀ argument ∈ directive.arguments, argument.value.IsWritable

/-- All of some directive applications can be written. -/
def Directives.AreWritable (directives : Directives) : Prop :=
  ∀ directive ∈ directives, directive.value.IsWritable

/-! ## Members of types -/

/-- An argument or input field can be written. -/
structure InputValueDefinition.IsWritable (definition : InputValueDefinition) : Prop where
  name : IsWord .name definition.name.text
  type : definition.type.value.IsWritable
  default : ∀ default ∈ definition.default, default.value.IsWritable
  directives : Directives.AreWritable definition.directives

/-- A field can be written. -/
structure FieldDefinition.IsWritable (definition : FieldDefinition) : Prop where
  name : IsWord .name definition.name.text
  arguments : ∀ argument ∈ definition.arguments, argument.value.IsWritable
  type : definition.type.value.IsWritable
  directives : Directives.AreWritable definition.directives

/-- A value of an enum type can be written. -/
structure EnumValueDefinition.IsWritable (definition : EnumValueDefinition) : Prop where
  name : IsWord .name definition.name.text
  free : IsFreeName definition.name.text
  directives : Directives.AreWritable definition.directives

/-! ## Definitions -/

/-- A directive can be written. -/
structure DirectiveDefinition.IsWritable (definition : DirectiveDefinition) : Prop where
  name : IsWord .name definition.name.text
  arguments : ∀ argument ∈ definition.arguments, argument.value.IsWritable
  locations : definition.locations ≠ []

/-- A scalar type can be written. -/
structure ScalarDefinition.IsWritable (definition : ScalarDefinition) : Prop where
  name : IsWord .name definition.name.text
  directives : Directives.AreWritable definition.directives

/-- An object or interface type can be written. -/
structure ObjectLikeDefinition.IsWritable (definition : ObjectLikeDefinition) : Prop where
  name : IsWord .name definition.name.text
  interfaces : ∀ interface ∈ definition.interfaces, IsWord .name interface.text
  directives : Directives.AreWritable definition.directives
  fields : ∀ field ∈ definition.fields, field.value.IsWritable

/-- A union type can be written. -/
structure UnionDefinition.IsWritable (definition : UnionDefinition) : Prop where
  name : IsWord .name definition.name.text
  directives : Directives.AreWritable definition.directives
  members : ∀ member ∈ definition.members, IsWord .name member.text

/-- An enum type can be written. -/
structure EnumDefinition.IsWritable (definition : EnumDefinition) : Prop where
  name : IsWord .name definition.name.text
  directives : Directives.AreWritable definition.directives
  values : ∀ value ∈ definition.values, value.value.IsWritable

/-- An input object type can be written. -/
structure InputObjectDefinition.IsWritable (definition : InputObjectDefinition) : Prop where
  name : IsWord .name definition.name.text
  directives : Directives.AreWritable definition.directives
  fields : ∀ field ∈ definition.fields, field.value.IsWritable

/-- The definition of a type can be written. -/
def TypeDefinition.IsWritable : TypeDefinition → Prop
  | .scalar definition => definition.value.IsWritable
  | .object definition | .interface definition => definition.value.IsWritable
  | .union definition => definition.value.IsWritable
  | .enum definition => definition.value.IsWritable
  | .inputObject definition => definition.value.IsWritable

/-- The extension of an object type adds what can be written. -/
structure ObjectExtension.IsWritable (extension : ObjectExtension) : Prop where
  interfaces : ∀ interface ∈ extension.interfaces, IsWord .name interface.text
  directives : Directives.AreWritable extension.directives
  fields : ∀ field ∈ extension.fields, field.value.IsWritable

/-! ## What was read can be written -/

section Read

variable {file : FileId}

theorem ReadsName.isWord {tree : Tree} {name : Name} (reads : ReadsName file tree name) :
    IsWord .name name.text := by
  cases reads
  assumption

mutual

/-- **A value that was read can be written.** -/
theorem ReadsValue.isWritable {tree : Tree} {value : Node Value} :
    ReadsValue file tree value → value.value.IsWritable
  | .int word => .int word
  | .float word => .float word
  | .string => .string _
  | .boolean => .boolean _
  | .null => .null
  | .enumValue _ named free => .enumValue named.isWord free
  | .list _ reads => .list reads.areWritable
  | .object _ reads =>
      .object (fun field member => (reads.areWritable field member).1)
        fun field member => (reads.areWritable field member).2

theorem ReadsValues.areWritable {trees : List Tree} {items : List (Node Value)} :
    ReadsValues file trees items → ∀ item ∈ items, item.value.IsWritable
  | .nil => List.forall_mem_nil _
  | .cons first rest => List.forall_mem_cons.2 ⟨first.isWritable, rest.areWritable⟩

theorem ReadsValueFields.areWritable {trees : List Tree} {fields : List (Name × Node Value)} :
    ReadsValueFields file trees fields →
      ∀ field ∈ fields, IsWord .name field.1.text ∧ field.2.value.IsWritable
  | .nil => List.forall_mem_nil _
  | .cons _ named first rest =>
      List.forall_mem_cons.2 ⟨⟨named.isWord, first.isWritable⟩, rest.areWritable⟩
  | .bare _ _ rest => rest.areWritable

end

theorem innerName_of_nonNull? {nullable reference : TypeReference}
    (wrapped : nullable.nonNull? = some reference) : reference.innerName = nullable.innerName := by
  cases nullable <;> cases wrapped <;> rfl

theorem ReadsReference.isWritable {tree : Tree} {reference : TypeReference}
    (reads : ReadsReference file tree reference) : reference.IsWritable := by
  induction reads with
  | named _ named => exact named.isWord
  | list _ _ ih => exact ih
  | nonNull _ _ wrapped ih =>
      rw [TypeReference.IsWritable, innerName_of_nonNull? wrapped]
      exact ih

theorem ReadsType.isWritable {tree : Tree} {type : Node TypeReference}
    (reads : ReadsType file tree type) : type.value.IsWritable := by
  cases reads with
  | mk reads => exact reads.isWritable

/-- What holds of every item that was read holds of all of them. -/
theorem ReadsAll.forall_item {α : Type} {reads : Tree → α → Prop} {P : α → Prop}
    (each : ∀ tree item, reads tree item → P item) {trees : List Tree} {items : List α}
    (all : ReadsAll reads trees items) : ∀ item ∈ items, P item := by
  induction all with
  | nil => simp
  | cons first _ ih =>
      rw [List.forall_mem_cons]
      exact ⟨each _ _ first, ih⟩

theorem ReadsGroup.forall_item {α : Type} {kind : TreeKind} {reads : Tree → α → Prop}
    {P : α → Prop} (each : ∀ tree item, reads tree item → P item) {trees : List Tree}
    {items : List α} (group : ReadsGroup kind reads trees items) : ∀ item ∈ items, P item := by
  cases group with
  | absent => simp
  | present all => exact all.forall_item each

theorem ReadsArguments.areWritable {trees : List Tree} {arguments : List (Node Argument)}
    (reads : ReadsArguments file trees arguments) :
    ∀ argument ∈ arguments, argument.value.IsWritable := by
  induction reads with
  | nil => simp
  | cons _ named first _ ih =>
      rw [List.forall_mem_cons]
      exact ⟨⟨named.isWord, first.isWritable⟩, ih⟩
  | bare _ _ _ ih => exact ih

theorem ReadsDirective.isWritable {tree : Tree} {directive : Node Directive}
    (reads : ReadsDirective file tree directive) : directive.value.IsWritable := by
  cases reads with
  | plain _ named => exact ⟨named.isWord, List.forall_mem_nil _⟩
  | given _ named reads => exact ⟨named.isWord, reads.areWritable⟩

theorem ReadsDirectives.areWritable {trees : List Tree} {directives : Directives}
    (reads : ReadsDirectives file trees directives) : Directives.AreWritable directives :=
  reads.forall_item fun _ _ reads => reads.isWritable

theorem ReadsDefault.isWritable {trees : List Tree} {default : Option (Node Value)}
    (reads : ReadsDefault file trees default) : ∀ value ∈ default, value.value.IsWritable := by
  cases reads with
  | absent => simp
  | present _ reads =>
      intro value given
      cases given
      exact reads.isWritable

theorem ReadsInput.isWritable {tree : Tree} {input : Node InputValueDefinition}
    (reads : ReadsInput file tree input) : input.value.IsWritable := by
  cases reads with
  | mk _ _ named typed defaulted applies =>
      exact ⟨named.isWord, typed.isWritable, defaulted.isWritable, applies.areWritable⟩

theorem ReadsField.isWritable {tree : Tree} {field : Node FieldDefinition}
    (reads : ReadsField file tree field) : field.value.IsWritable := by
  cases reads with
  | mk _ _ named takes typed applies =>
      exact ⟨named.isWord, takes.forall_item fun _ _ reads => reads.isWritable, typed.isWritable,
        applies.areWritable⟩

theorem ReadsEnumValue.isWritable {tree : Tree} {value : Node EnumValueDefinition}
    (reads : ReadsEnumValue file tree value) : value.value.IsWritable := by
  cases reads with
  | mk _ _ _ named free applies => exact ⟨named.isWord, free, applies.areWritable⟩

theorem ReadsNamedType.isWord {tree : Tree} {name : Name}
    (reads : ReadsNamedType file tree name) : IsWord .name name.text := by
  cases reads with
  | mk _ named => exact named.isWord

/-- **A type that is defined in what was read can be written.** -/
theorem ReadsDefinition.isWritable_type {tree : Tree} {definition : TypeDefinition}
    (reads : ReadsDefinition file tree (.type definition)) : definition.IsWritable := by
  cases reads with
  | scalar content reads =>
      cases reads with
      | mk _ named applies => exact ⟨named.isWord, applies.areWritable⟩
  | object content reads | interface content reads =>
      cases reads with
      | mk _ named lists applies defines =>
          exact ⟨named.isWord, lists.forall_item fun _ _ reads => reads.isWord,
            applies.areWritable, defines.forall_item fun _ _ reads => reads.isWritable⟩
  | union content reads =>
      cases reads with
      | mk _ named applies lists =>
          exact ⟨named.isWord, applies.areWritable,
            lists.forall_item fun _ _ reads => reads.isWord⟩
  | enum content reads =>
      cases reads with
      | mk _ named applies defines =>
          exact ⟨named.isWord, applies.areWritable,
            defines.forall_item fun _ _ reads => reads.isWritable⟩
  | inputObject content reads =>
      cases reads with
      | mk _ named applies defines =>
          exact ⟨named.isWord, applies.areWritable,
            defines.forall_item fun _ _ reads => reads.isWritable⟩

theorem ReadsDefinition.isWritable_directive {tree : Tree} {definition : Node DirectiveDefinition}
    (reads : ReadsDefinition file tree (.directive definition)) :
    definition.value.IsWritable := by
  cases reads with
  | directive content reads =>
      cases reads with
      | mk _ named takes _ _ some =>
          exact ⟨named.isWord, takes.forall_item fun _ _ reads => reads.isWritable, some⟩

theorem ReadsDefinition.isWritable_extension {tree : Tree} {extension : Node ObjectExtension}
    (reads : ReadsDefinition file tree (.objectExtension extension)) :
    extension.value.IsWritable := by
  cases reads with
  | objectExtension content reads =>
      cases reads with
      | mk named lists applies defines =>
          exact ⟨lists.forall_item fun _ _ reads => reads.isWord, applies.areWritable,
            defines.forall_item fun _ _ reads => reads.isWritable⟩

end Read

end SchemaGraft
