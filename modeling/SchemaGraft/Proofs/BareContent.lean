import SchemaGraft.Proofs.Bare
import SchemaGraft.Proofs.Extension.Merge

/-!
# What types hold without places

What a type holds is its content; without the places where its parts were written it is what two
types have in common that were read from the same text in different files (`TypeContent.bare`). It
keeps the order of all parts. Types that hold the same without places are equal in the sense of `==`
(`SchemaType.beq_of_content`).

The content of a new type can be told from its definition (`TypeDefinition.content`), and without
places from the definition without places (`TypeDefinition.content_bare`).
-/

set_option autoImplicit false

namespace SchemaGraft

/-! ## Members without places -/

/-- A field without places. -/
def Field.bare (field : Field) : Field where
  description := field.description
  name := field.name.bare
  arguments := field.arguments.map (·.bare InputValueDefinition.bare)
  type := field.type.bare TypeReference.bare
  directives := Directives.bare field.directives
  deprecation := field.deprecation
  resolver := field.resolver

/-- A value of an enum type without places. -/
def EnumValue.bare (value : EnumValue) : EnumValue where
  description := value.description
  name := value.name.bare
  directives := Directives.bare value.directives
  deprecation := value.deprecation
  internalValue := value.internalValue

theorem Field.beq_of_bare {left right : Field} (same : left.bare = right.bare) :
    (left == right) = true := by
  simp only [bare, mk.injEq] at same
  obtain ⟨description, name, arguments, type, directives, deprecation, resolver⟩ := same
  rw [Field.beq_eq, description, Name.beq_of_bare name, Arguments.beq_of_bare arguments,
    Node.beq_of_bare (fun _ _ => TypeReference.beq_of_bare) type,
    Directives.beq_of_bare directives, deprecation, resolver]
  simp

theorem EnumValue.beq_of_bare {left right : EnumValue} (same : left.bare = right.bare)
    (reflexive : (left.internalValue == left.internalValue) = true) : (left == right) = true := by
  simp only [bare, mk.injEq] at same
  obtain ⟨description, name, directives, deprecation, internalValue⟩ := same
  rw [EnumValue.beq_eq, description, Name.beq_of_bare name, Directives.beq_of_bare directives,
    deprecation, ← internalValue, reflexive]
  simp

/-- Maps are equal whose values are, name by name. -/
theorem NameMap.beq_of_entries {ν β : Type} [BEq ν] (content : ν → β) {left right : NameMap ν}
    (same : left.entries.map (fun entry => (entry.1.text, content entry.2)) =
      right.entries.map fun entry => (entry.1.text, content entry.2))
    (each : ∀ value ∈ left.values, ∀ other ∈ right.values, content value = content other →
      (value == other) = true) : (left == right) = true := by
  refine OrderedMap.same_of_agree ?_ fun entry member => ?_
  · have lengths := congrArg List.length same
    rwa [List.length_map, List.length_map] at lengths
  · have listed : (entry.1.text, content entry.2) ∈
        right.entries.map fun entry => (entry.1.text, content entry.2) :=
      same ▸ List.mem_map_of_mem (f := fun entry => (entry.1.text, content entry.2)) member
    obtain ⟨other, present, twin⟩ := List.mem_map.1 listed
    obtain ⟨text, value⟩ := Prod.mk.inj twin
    refine ⟨other.2, ?_, each _ (List.mem_map_of_mem member) _ (List.mem_map_of_mem present)
      value.symm⟩
    rw [← OrderedMap.get?_congr right (Name.beq_iff_text_eq.2 text)]
    exact OrderedMap.get?_of_mem present

/-- Sets are equal that have the same names. -/
theorem NameSet.beq_of_texts {left right : NameSet}
    (same : left.keys.map (·.bare) = right.keys.map (·.bare)) : (left == right) = true := by
  refine NameMap.beq_of_entries id ?_ fun _ _ _ _ _ => rfl
  have texts := congrArg (List.map fun name : Name => (name.text, ())) same
  simpa [OrderedMap.keys, Function.comp_def] using texts

/-! ## Contents without places -/

/-- What a type holds without places. -/
def TypeContent.bare (content : TypeContent) : TypeContent where
  kind := content.kind
  location := none
  description := content.description
  name := content.name.bare
  directives := Directives.bare content.directives
  interfaces := content.interfaces.map (·.bare)
  fields := content.fields.map fun (name, _, field) => (name.bare, none, field.bare)
  members := content.members.map (·.bare)
  values := content.values.map fun (name, _, value) => (name.bare, none, value.bare)
  inputFields := content.inputFields.map fun (name, field) =>
    (name.bare, field.bare InputValueDefinition.bare)

/-- Fields are equal that are the same without places. -/
theorem NameMap.beq_of_fields {left right : NameMap (Node Field)}
    (same : (NameMap.contents left).map (fun (name, _, field) =>
        (name.bare, (none : Option Location), field.bare)) =
      (NameMap.contents right).map fun (name, _, field) => (name.bare, none, field.bare)) :
    (left == right) = true := by
  refine NameMap.beq_of_entries (fun field => field.value.bare) ?_
    fun _ _ _ _ same => Node.beq_of_value (Field.beq_of_bare same)
  have parts := congrArg (List.map fun entry => (entry.1.text, entry.2.2)) same
  simpa [NameMap.contents, Function.comp_def] using parts

/-- The values of enum types are equal that are the same without places. -/
theorem NameMap.beq_of_values {left right : NameMap (Node EnumValue)}
    (same : (NameMap.contents left).map (fun (name, _, value) =>
        (name.bare, (none : Option Location), value.bare)) =
      (NameMap.contents right).map fun (name, _, value) => (name.bare, none, value.bare))
    (reflexive : ∀ entry ∈ NameMap.contents left,
      (entry.2.2.internalValue == entry.2.2.internalValue) = true) :
    (left == right) = true := by
  refine NameMap.beq_of_entries (fun value => value.value.bare) ?_ ?_
  · have parts := congrArg (List.map fun entry => (entry.1.text, entry.2.2)) same
    simpa [NameMap.contents, Function.comp_def] using parts
  · intro value member other _ same
    obtain ⟨entry, listed, rfl⟩ := List.mem_map.1 member
    exact Node.beq_of_value (EnumValue.beq_of_bare same
      (reflexive _ (List.mem_map_of_mem listed)))

/-- Input fields are equal that are the same without places. -/
theorem NameMap.beq_of_inputFields {left right : NameMap (Node InputValueDefinition)}
    (same : left.entries.map (fun (name, field) =>
        (name.bare, field.bare InputValueDefinition.bare)) =
      right.entries.map fun (name, field) => (name.bare, field.bare InputValueDefinition.bare)) :
    (left == right) = true := by
  refine NameMap.beq_of_entries (fun field => field.bare InputValueDefinition.bare) ?_
    fun _ _ _ _ same => Node.beq_of_bare (fun _ _ => InputValueDefinition.beq_of_bare) same
  have parts := congrArg (List.map fun entry => (entry.1.text, entry.2)) same
  simpa [Function.comp_def] using parts

theorem ObjectLikeType.beq_of_content {left right : ObjectLikeType}
    (description : left.description = right.description) (name : left.name.bare = right.name.bare)
    (directives : Directives.bare left.directives = Directives.bare right.directives)
    (interfaces : left.interfaces.keys.map (·.bare) = right.interfaces.keys.map (·.bare))
    (fields : (left.fields == right.fields) = true) : (left == right) = true := by
  rw [ObjectLikeType.beq_eq, fields, description, Name.beq_of_bare name,
    NameSet.beq_of_texts interfaces, Directives.beq_of_bare directives]
  simp

theorem UnionType.beq_of_content {left right : UnionType}
    (description : left.description = right.description) (name : left.name.bare = right.name.bare)
    (directives : Directives.bare left.directives = Directives.bare right.directives)
    (members : (left.members == right.members) = true) : (left == right) = true := by
  rw [UnionType.beq_eq, members, description, Name.beq_of_bare name,
    Directives.beq_of_bare directives]
  simp

theorem EnumType.beq_of_content {left right : EnumType}
    (description : left.description = right.description) (name : left.name.bare = right.name.bare)
    (directives : Directives.bare left.directives = Directives.bare right.directives)
    (values : (left.values == right.values) = true) : (left == right) = true := by
  rw [EnumType.beq_eq, values, description, Name.beq_of_bare name,
    Directives.beq_of_bare directives]
  simp

theorem InputObjectType.beq_of_content {left right : InputObjectType}
    (description : left.description = right.description) (name : left.name.bare = right.name.bare)
    (directives : Directives.bare left.directives = Directives.bare right.directives)
    (fields : (left.fields == right.fields) = true) : (left == right) = true := by
  rw [InputObjectType.beq_eq, fields, description, Name.beq_of_bare name,
    Directives.beq_of_bare directives]
  simp

/-- **Types that hold the same without places are equal.** What stands for enum values inside an
executor must equal itself, which not all JSON values do. -/
theorem SchemaType.beq_of_content {left right : SchemaType}
    (same : left.content.bare = right.content.bare)
    (reflexive : ∀ entry ∈ left.valueContents,
      (entry.2.2.internalValue == entry.2.2.internalValue) = true) : (left == right) = true := by
  have description : left.description = right.description := congrArg (·.description) same
  have name : left.name.bare = right.name.bare := congrArg (·.name) same
  have directives : Directives.bare left.directives = Directives.bare right.directives :=
    congrArg (·.directives) same
  have kind : left.kind = right.kind := congrArg (·.kind) same
  cases left <;> cases right <;> cases kind
  case scalar.scalar left right =>
      refine Node.beq_of_value (ScalarDefinition.beq_of_bare ?_)
      rw [ScalarDefinition.bare, ScalarDefinition.bare, ScalarDefinition.mk.injEq]
      exact ⟨description, name, directives⟩
  case object.object left right | interface.interface left right =>
      exact Node.beq_of_value (ObjectLikeType.beq_of_content description name directives
        (congrArg (·.interfaces) same) (NameMap.beq_of_fields (congrArg (·.fields) same)))
  case union.union left right =>
      exact Node.beq_of_value (UnionType.beq_of_content description name directives
        (NameSet.beq_of_texts (congrArg (·.members) same)))
  case enum.enum left right =>
      exact Node.beq_of_value (EnumType.beq_of_content description name directives
        (NameMap.beq_of_values (congrArg (·.values) same) reflexive))
  case inputObject.inputObject left right =>
      exact Node.beq_of_value (InputObjectType.beq_of_content description name directives
        (NameMap.beq_of_inputFields (congrArg (·.inputFields) same)))

/-! ## What definitions make -/

/-- The field that a definition makes if no resolver is given for it. -/
def FieldDefinition.toField (definition : FieldDefinition) : Field where
  description := definition.description
  name := definition.name
  arguments := definition.arguments
  type := definition.type
  directives := definition.directives
  deprecation := Deprecation.ofDirectives? definition.directives
  resolver := none

/-- The value of an enum type that a definition makes. -/
def EnumValueDefinition.toValue (definition : EnumValueDefinition) : EnumValue where
  description := definition.description
  name := definition.name
  directives := definition.directives
  deprecation := Deprecation.ofDirectives? definition.directives
  internalValue := .string definition.name.text

namespace TypeDefinition

/-- The interfaces that a definition lists. -/
def interfaceNames : TypeDefinition → List Name
  | object definition | interface definition => definition.value.interfaces
  | scalar _ | union _ | enum _ | inputObject _ => []

/-- The fields of the object or interface type that a definition makes. -/
def fieldContents : TypeDefinition → List (Name × Option Location × Field)
  | object definition | interface definition =>
    definition.value.fields.map fun field => (field.value.name, field.location, field.value.toField)
  | scalar _ | union _ | enum _ | inputObject _ => []

/-- The members of the union that a definition makes. -/
def memberNames : TypeDefinition → List Name
  | union definition => Name.distinct definition.value.members
  | scalar _ | object _ | interface _ | enum _ | inputObject _ => []

/-- The values of the enum type that a definition makes. -/
def valueContents : TypeDefinition → List (Name × Option Location × EnumValue)
  | enum definition =>
    definition.value.values.map fun value => (value.value.name, value.location, value.value.toValue)
  | scalar _ | object _ | interface _ | union _ | inputObject _ => []

/-- The fields of the input object type that a definition makes. -/
def inputFieldEntries : TypeDefinition → List (Name × Node InputValueDefinition)
  | inputObject definition => definition.value.fields.map fun field => (field.value.name, field)
  | scalar _ | object _ | interface _ | union _ | enum _ => []

/-- What the type holds that a definition makes if no resolvers are given. -/
def content (definition : TypeDefinition) : TypeContent where
  kind := definition.kind
  location := definition.location
  description := definition.description
  name := definition.name
  directives := definition.directives
  interfaces := definition.interfaceNames
  fields := definition.fieldContents
  members := definition.memberNames
  values := definition.valueContents
  inputFields := definition.inputFieldEntries

theorem contents_of_makesObjectLike {run : ExtensionRun}
    (unresolved : ∀ type field, run.resolvers.resolverOf type field = none)
    {definition : Node ObjectLikeDefinition} {type : Node ObjectLikeType}
    (makes : MakesObjectLike run definition type) :
    NameMap.contents type.value.fields = definition.value.fields.map fun field =>
      (field.value.name, field.location, field.value.toField) := by
  unfold NameMap.contents
  rw [makes.fields, fieldEntries, List.map_map]
  refine List.map_congr_left fun field _ => ?_
  simp [Node.addedField, FieldDefinition.toField, unresolved]

/-- **A new type holds what its definition says.** -/
theorem Makes.content_eq {run : ExtensionRun}
    (unresolved : ∀ type field, run.resolvers.resolverOf type field = none)
    {definition : TypeDefinition} {type : SchemaType} (makes : definition.Makes run type) :
    type.content = definition.content := by
  have members := makes.members
  unfold SchemaType.content TypeDefinition.content
  rw [members.kind_eq, makes.location, makes.description, makes.name, makes.directives]
  cases definition <;> cases type <;> first | exact members.elim | skip
  case scalar definition type => rfl
  case object definition type | interface definition type =>
      have members : MakesObjectLike run definition type := members
      simp only [SchemaType.interfaceNames, SchemaType.fieldContents, interfaceNames,
        fieldContents, members.interfaces, contents_of_makesObjectLike unresolved members]
      rfl
  case union definition type =>
      have members : type.value.members.keys = _ := members
      simp only [SchemaType.memberNames, memberNames, members]
      rfl
  case enum definition type =>
      have entries : type.value.values.entries = _ := members
      simp only [SchemaType.valueContents, valueContents, NameMap.contents, entries, List.map_map]
      rfl
  case inputObject definition type =>
      have entries : type.value.fields.entries = _ := members
      simp only [SchemaType.inputFieldEntries, inputFieldEntries, entries]
      rfl

end TypeDefinition

/-! ## What definitions make without places -/

theorem FieldDefinition.toField_bare (definition : FieldDefinition) :
    definition.bare.toField = definition.toField.bare := by
  simp only [toField, bare, Field.bare, Deprecation.ofDirectives?_bare]

theorem EnumValueDefinition.toValue_bare (definition : EnumValueDefinition) :
    definition.bare.toValue = definition.toValue.bare := by
  simp only [toValue, bare, EnumValue.bare, Deprecation.ofDirectives?_bare, Name.text_bare]

theorem Name.distinct_map_bare (names : List Name) :
    distinct (names.map (·.bare)) = (distinct names).map (·.bare) := by
  induction names with
  | nil => rfl
  | cons name rest ih =>
      rw [List.map_cons, distinct, distinct, ih, List.map_cons, List.filter_map]
      rfl

/-- **What a definition makes, without places, is what it makes if it has no places.** -/
theorem TypeDefinition.content_bare (definition : TypeDefinition) :
    definition.bare.content = definition.content.bare := by
  cases definition with
  | scalar definition => rfl
  | object definition | interface definition =>
      simp only [bare, content, fieldContents, TypeContent.bare, Node.bare,
        ObjectLikeDefinition.bare, List.map_map, Function.comp_def, FieldDefinition.toField_bare]
      rfl
  | union definition =>
      simp only [bare, content, memberNames, TypeContent.bare, Node.bare, UnionDefinition.bare,
        Name.distinct_map_bare]
      rfl
  | enum definition =>
      simp only [bare, content, valueContents, TypeContent.bare, Node.bare, EnumDefinition.bare,
        List.map_map, Function.comp_def, EnumValueDefinition.toValue_bare]
      rfl
  | inputObject definition =>
      simp only [bare, content, inputFieldEntries, TypeContent.bare, Node.bare,
        InputObjectDefinition.bare, List.map_map, Function.comp_def]
      rfl

end SchemaGraft
