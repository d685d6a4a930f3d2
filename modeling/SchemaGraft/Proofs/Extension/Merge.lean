import SchemaGraft.Proofs.Extension.Rules

/-!
# The merge of a schema and a document

What a successful extension gives can be said without building anything. Every type of the base
schema that the document does not extend stays the very node it was. Every type that it does extend
has its own interfaces, directives and fields first and then those of its extensions in the order of
the document (`IsExtensionOf`). Every new type has the parts of its definition in the order in which
they are written (`TypeDefinition.Makes`). `Schema.IsMerge` puts this together.

Names are compared by their texts, so the keys of the types are given by their texts: where a key
was first written does not show in them.
-/

set_option autoImplicit false

namespace SchemaGraft

/-! ## Members -/

/-- The field that a definition adds to the type that is called `type` and that the schema has under
`key`. All is as written; the deprecation is read from the field's own directives and the resolver
comes from the run. -/
def Node.addedField (run : ExtensionRun) (key type : Name) (definition : Node FieldDefinition) :
    Node Field where
  identity := .built run.number (.field key.text definition.value.name.text)
  location := definition.location
  value :=
    { description := definition.value.description
      name := definition.value.name
      arguments := definition.value.arguments
      type := definition.value.type
      directives := definition.value.directives
      deprecation := Deprecation.ofDirectives? definition.value.directives
      resolver := run.resolvers.resolverOf type definition.value.name }

/-- The value that a definition adds to an enum type. Its own name stands for it inside an
executor. -/
def Node.addedValue (run : ExtensionRun) (type : Name) (definition : Node EnumValueDefinition) :
    Node EnumValue where
  identity := .built run.number (.enumValue type.text definition.value.name.text)
  location := definition.location
  value :=
    { description := definition.value.description
      name := definition.value.name
      directives := definition.value.directives
      deprecation := Deprecation.ofDirectives? definition.value.directives
      internalValue := .string definition.value.name.text }

/-- The entries of the fields that are added to a type. -/
def fieldEntries (run : ExtensionRun) (key type : Name) (fields : List (Node FieldDefinition)) :
    List (Name × Node Field) :=
  fields.map fun field => (field.value.name, field.addedField run key type)

theorem map_fst_fieldEntries (run : ExtensionRun) (key type : Name)
    (fields : List (Node FieldDefinition)) :
    (fieldEntries run key type fields).map (·.1) = fields.map (·.value.name) := by
  simp [fieldEntries, Function.comp_def]

theorem fieldEntries_append (run : ExtensionRun) (key type : Name)
    (first second : List (Node FieldDefinition)) :
    fieldEntries run key type (first ++ second) =
      fieldEntries run key type first ++ fieldEntries run key type second :=
  List.map_append

/-! ## Extended types -/

/-- An object type with extensions: what it had stays first, and what the extensions add follows in
their order. A type without extensions is itself of this kind. -/
structure HasExtensions (run : ExtensionRun) (key : Name) (base : Node ObjectLikeType)
    (clauses : List (Node ObjectExtension)) (extended : Node ObjectLikeType) : Prop where
  location : extended.location = base.location
  description : extended.value.description = base.value.description
  name : extended.value.name = base.value.name
  interfaces : extended.value.interfaces.keys =
    base.value.interfaces.keys ++ clauses.flatMap (·.value.interfaces)
  directives : extended.value.directives =
    base.value.directives ++ clauses.flatMap (·.value.directives)
  fields : extended.value.fields.entries =
    base.value.fields.entries ++
      fieldEntries run key base.value.name (clauses.flatMap (·.value.fields))

theorem HasExtensions.nil (run : ExtensionRun) (key : Name) (base : Node ObjectLikeType) :
    HasExtensions run key base [] base where
  location := rfl
  description := rfl
  name := rfl
  interfaces := by simp
  directives := by simp
  fields := by simp [fieldEntries]

theorem HasExtensions.keys_fields {run : ExtensionRun} {key : Name}
    {base extended : Node ObjectLikeType} {clauses : List (Node ObjectExtension)}
    (has : HasExtensions run key base clauses extended) :
    extended.value.fields.keys = base.value.fields.keys ++
      clauses.flatMap fun clause => clause.value.fields.map (·.value.name) := by
  unfold OrderedMap.keys
  rw [has.fields, List.map_append, map_fst_fieldEntries, List.map_flatMap]

/-- What building makes of an object type and its extensions is a node of its own. -/
structure IsExtensionOf (run : ExtensionRun) (key : Name) (base : Node ObjectLikeType)
    (clauses : List (Node ObjectExtension)) (extended : Node ObjectLikeType) : Prop
    extends HasExtensions run key base clauses extended where
  identity : extended.identity = .built run.number (.type key.text)

/-! ## New types -/

/-- The identity of the node of a type. -/
def SchemaType.identity : SchemaType → NodeId
  | .scalar type => type.identity
  | .object type => type.identity
  | .interface type => type.identity
  | .union type => type.identity
  | .enum type => type.identity
  | .inputObject type => type.identity

namespace TypeDefinition

/-- The description of a type that is defined. -/
def description : TypeDefinition → Option String
  | .scalar definition => definition.value.description
  | .object definition => definition.value.description
  | .interface definition => definition.value.description
  | .union definition => definition.value.description
  | .enum definition => definition.value.description
  | .inputObject definition => definition.value.description

/-- The directives that are applied to a type where it is defined. -/
def directives : TypeDefinition → Directives
  | .scalar definition => definition.value.directives
  | .object definition => definition.value.directives
  | .interface definition => definition.value.directives
  | .union definition => definition.value.directives
  | .enum definition => definition.value.directives
  | .inputObject definition => definition.value.directives

/-- The members of an object or interface type are those of its definition. -/
structure MakesObjectLike (run : ExtensionRun) (definition : Node ObjectLikeDefinition)
    (type : Node ObjectLikeType) : Prop where
  interfaces : type.value.interfaces.keys = definition.value.interfaces
  fields : type.value.fields.entries =
    fieldEntries run definition.value.name definition.value.name definition.value.fields

/-- The members of a type are those of its definition in the order in which they are written. A
union has no member twice: what is listed again later is dropped. -/
def MakesMembers (run : ExtensionRun) : TypeDefinition → SchemaType → Prop
  | .scalar _, .scalar _ => True
  | .object definition, .object type => MakesObjectLike run definition type
  | .interface definition, .interface type => MakesObjectLike run definition type
  | .union definition, .union type =>
    type.value.members.keys = Name.distinct definition.value.members
  | .enum definition, .enum type =>
    type.value.values.entries = definition.value.values.map fun value =>
      (value.value.name, value.addedValue run definition.value.name)
  | .inputObject definition, .inputObject type =>
    type.value.fields.entries = definition.value.fields.map fun field => (field.value.name, field)
  | _, _ => False

/-- A new type is the image of its definition. -/
structure Makes (run : ExtensionRun) (definition : TypeDefinition) (type : SchemaType) : Prop where
  identity : type.identity = .built run.number (.type definition.name.text)
  location : type.location = definition.location
  description : type.description = definition.description
  name : type.name = definition.name
  directives : type.directives = definition.directives
  members : definition.MakesMembers run type

/-- A type is of the kind that its definition says. -/
theorem MakesMembers.kind_eq {run : ExtensionRun} {definition : TypeDefinition} {type : SchemaType}
    (makes : definition.MakesMembers run type) : type.kind = definition.kind := by
  cases definition <;> cases type <;> first | rfl | exact makes.elim

end TypeDefinition

/-! ## Whole schemas -/

/-- **The merge of a schema and definitions.** -/
structure Schema.IsMerge (run : ExtensionRun) (base : Schema) (definitions : List Definition)
    (merged : Schema) : Prop where
  /-- The types are those of the base schema in their order, then the new ones in the order of the
  document. -/
  typeNames : NameMap.texts merged.types =
    NameMap.texts base.types ++ (Definition.typesAmong definitions).map (·.name.text)
  /-- A type that is not extended stays as it is. -/
  kept : ∀ {name type}, base.types.get? name = some type →
    Definition.clausesFor definitions name = [] → merged.types.get? name = some type
  /-- A type that is extended is the extension of what it was. -/
  extended : ∀ {name type}, base.types.get? name = some (.object type) →
    Definition.clausesFor definitions name ≠ [] →
    ∃ extended, merged.types.get? name = some (.object extended) ∧
      IsExtensionOf run name type (Definition.clausesFor definitions name) extended
  /-- A new type is the image of its definition. -/
  added : ∀ definition ∈ Definition.typesAmong definitions,
    ∃ type, merged.types.get? definition.name = some type ∧ definition.Makes run type
  /-- The directives are those of the base schema, then the new ones as they are written. -/
  directives : merged.directives.entries =
    base.directives.entries ++ (Definition.directivesAmong definitions).map fun definition =>
      (definition.value.name, definition)
  roots : merged.roots = base.roots

/-! ## The types of a merge -/

/-- The kind of the type of a name in a schema. -/
def Schema.kindOf? (schema : Schema) (name : Name) : Option TypeKind :=
  (schema.types.get? name).map (·.kind)

namespace Schema.IsMerge

variable {run : ExtensionRun} {base merged : Schema} {definitions : List Definition}
  (isMerge : IsMerge run base definitions merged)
include isMerge

/-- A merge has the types of the base schema and the new ones. -/
theorem contains_iff (name : Name) :
    merged.types.contains name = true ↔ base.types.contains name = true ∨
      ∃ definition ∈ Definition.typesAmong definitions, (definition.name == name) = true := by
  simp only [NameMap.contains_iff, isMerge.typeNames, List.mem_append, List.mem_map,
    Name.beq_iff_text_eq]

/-- The names of the new types come after those of the base schema and differ from them. -/
theorem areFresh : AreFresh base.types.keys
    ((Definition.typesAmong definitions).map (·.name)) := by
  have distinct := NameMap.nodup_texts merged.types
  rw [isMerge.typeNames, List.nodup_append] at distinct
  obtain ⟨_, distinct, apart⟩ := distinct
  refine ⟨by rwa [List.map_map], fun name member present => ?_⟩
  obtain ⟨definition, listed, rfl⟩ := List.mem_map.1 member
  exact apart _ present _ (List.mem_map_of_mem (f := fun d => d.name.text) listed) rfl

/-- A type of a merge is one of the base schema that is not extended, or the extension of one, or a
new type. -/
theorem type_cases (admits : base.Admits definitions) {name : Name} {type : SchemaType}
    (found : merged.types.get? name = some type) :
    (base.types.get? name = some type ∧ Definition.clausesFor definitions name = []) ∨
    (∃ object extended, base.types.get? name = some (.object object) ∧
      Definition.clausesFor definitions name ≠ [] ∧ type = .object extended ∧
      IsExtensionOf run name object (Definition.clausesFor definitions name) extended) ∨
    ∃ definition ∈ Definition.typesAmong definitions,
      (definition.name == name) = true ∧ definition.Makes run type := by
  have present := (isMerge.contains_iff name).1 (OrderedMap.contains_of_get? found)
  rcases present with present | ⟨definition, member, same⟩
  · obtain ⟨before, stored⟩ := (OrderedMap.contains_iff_exists_value _ _).1 present
    by_cases none : Definition.clausesFor definitions name = []
    · have kept := isMerge.kept stored none
      rw [found] at kept
      cases kept
      exact .inl ⟨stored, none⟩
    · obtain ⟨clause, listed⟩ := List.exists_mem_of_ne_nil _ none
      obtain ⟨listed, same⟩ := Definition.mem_clausesFor_iff.1 listed
      obtain ⟨object, target⟩ := admits.targets clause listed
      rw [OrderedMap.get?_congr _ same] at target
      obtain ⟨extended, replaced, extension⟩ := isMerge.extended target none
      rw [found] at replaced
      cases replaced
      exact .inr (.inl ⟨object, extended, target, none, rfl, extension⟩)
  · obtain ⟨made, stored, makes⟩ := isMerge.added definition member
    rw [OrderedMap.get?_congr _ same, found] at stored
    cases stored
    exact .inr (.inr ⟨definition, member, same, makes⟩)

/-- **Definitions without extensions add their types behind those of the base schema.** -/
theorem exists_values_types (none : Definition.clausesAmong definitions = []) :
    ∃ make : TypeDefinition → SchemaType,
      merged.types.values =
        base.types.values ++ (Definition.typesAmong definitions).map make ∧
      ∀ definition ∈ Definition.typesAmong definitions,
        merged.types.get? definition.name = some (make definition) ∧
          definition.Makes run (make definition) := by
  have untouched : ∀ name, Definition.clausesFor definitions name = [] := fun name => by
    rw [Definition.clausesFor, none, List.filter_nil]
  have added : ∀ definition, ∃ type, definition ∈ Definition.typesAmong definitions →
      merged.types.get? definition.name = some type ∧ definition.Makes run type := by
    intro definition
    by_cases member : definition ∈ Definition.typesAmong definitions
    · obtain ⟨type, made⟩ := isMerge.added definition member
      exact ⟨type, fun _ => made⟩
    · exact ⟨.scalar ⟨.built 0 (.type ""), .none, .none, .plain "", []⟩,
        fun present => absurd present member⟩
  obtain ⟨make, made⟩ := Classical.axiomOfChoice added
  refine ⟨make, @NameMap.values_eq _ _ (base.types.keys ++
    (Definition.typesAmong definitions).map (·.name)) _ ?_ ?_, made⟩
  · rw [isMerge.typeNames, List.map_append, List.map_map]
    rfl
  · rw [List.map_append, List.map_append, OrderedMap.keys, OrderedMap.values, List.map_map,
      List.map_map, List.map_map, List.map_map]
    congr 1
    · exact List.map_congr_left fun entry member =>
        isMerge.kept (OrderedMap.get?_of_mem member) (untouched _)
    · exact List.map_congr_left fun definition member => (made definition member).1

/-- An object type of the base schema has its extensions in the merge, be it none. -/
theorem object_of_base {name : Name} {object : Node ObjectLikeType}
    (found : base.types.get? name = some (.object object)) :
    ∃ extended, merged.types.get? name = some (.object extended) ∧
      HasExtensions run name object (Definition.clausesFor definitions name) extended := by
  by_cases none : Definition.clausesFor definitions name = []
  · exact ⟨object, isMerge.kept found none, none ▸ HasExtensions.nil run name object⟩
  · obtain ⟨extended, stored, extension⟩ := isMerge.extended found none
    exact ⟨extended, stored, extension.toHasExtensions⟩

/-- **A type of the base schema keeps its kind.** -/
theorem kindOf?_of_base (admits : base.Admits definitions) {name : Name} {kind : TypeKind}
    (found : base.kindOf? name = some kind) : merged.kindOf? name = some kind := by
  rw [Schema.kindOf?, Option.map_eq_some_iff] at found
  obtain ⟨before, stored, rfl⟩ := found
  have present := (isMerge.contains_iff name).2 (.inl (OrderedMap.contains_of_get? stored))
  obtain ⟨type, after⟩ := (OrderedMap.contains_iff_exists_value _ _).1 present
  rw [Schema.kindOf?, after]
  obtain ⟨same, _⟩ | ⟨object, extended, same, _, rfl, _⟩ | ⟨definition, member, same, _⟩ :=
    isMerge.type_cases admits after
  · rw [stored] at same
    cases same
    rfl
  · rw [stored] at same
    cases same
    rfl
  · refine absurd ?_ (isMerge.areFresh.absent _ (List.mem_map_of_mem member))
    rw [← NameMap.texts, Name.beq_iff_text_eq.1 same, ← NameMap.contains_iff]
    exact OrderedMap.contains_of_get? stored

/-- **A merge has the kinds that its references rely on.** -/
theorem kindOf?_eq (admits : base.Admits definitions) :
    merged.kindOf? = base.kindWith? definitions := by
  funext name
  unfold Schema.kindWith?
  cases stored : base.types.get? name with
  | some type => exact isMerge.kindOf?_of_base admits (by rw [Schema.kindOf?, stored]; rfl)
  | none =>
      rw [Option.map_none, Option.none_or]
      cases found : (Definition.typesAmong definitions).find? (·.name == name) with
      | some definition =>
          have same := List.find?_some found
          obtain ⟨type, made, makes⟩ :=
            isMerge.added definition (List.mem_of_find?_eq_some found)
          rw [OrderedMap.get?_congr _ same] at made
          rw [Schema.kindOf?, made, Option.map_some, Option.map_some, makes.members.kind_eq]
      | none =>
          have absent : merged.types.get? name = none := by
            rw [OrderedMap.get?_eq_none_iff, ← Bool.not_eq_true, isMerge.contains_iff]
            rintro (present | ⟨definition, member, same⟩)
            · rw [OrderedMap.contains_eq_isSome_get?, stored] at present
              cases present
            · exact List.find?_eq_none.1 found definition member same
          rw [Schema.kindOf?, absent]
          rfl

end Schema.IsMerge

end SchemaGraft
