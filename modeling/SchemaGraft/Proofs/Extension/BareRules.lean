import SchemaGraft.Proofs.Bare
import SchemaGraft.Proofs.Extension.Rules

/-!
# The rules without places

Where the parts of a document stand does not matter to the rules of extension. What they need of a
definition is left when places are left out: names by their texts, and kinds. So a schema that
admits definitions admits all that are equal to them without places (`Schema.Admits.of_bare`), such
as those that are read from the same text in another file.
-/

set_option autoImplicit false

namespace SchemaGraft

/-! ## Names -/

/-- Only the texts of added names matter. -/
theorem AreFresh.of_texts {existing added other : List Name}
    (same : added.map (·.text) = other.map (·.text)) (fresh : AreFresh existing added) :
    AreFresh existing other := by
  refine ⟨same ▸ fresh.distinct, fun name member => ?_⟩
  have listed : name.text ∈ added.map (·.text) := same ▸ List.mem_map_of_mem member
  obtain ⟨twin, listed, text⟩ := List.mem_map.1 listed
  rw [← text]
  exact fresh.absent twin listed

/-! ## Definitions without places among definitions -/

namespace Definition

variable (definitions : List Definition)

theorem typesAmong_map_bare :
    typesAmong (definitions.map Definition.bare) = (typesAmong definitions).map (·.bare) := by
  rw [typesAmong, typesAmong, List.filterMap_map, List.map_filterMap]
  congr 1
  funext definition
  cases definition <;> rfl

theorem directivesAmong_map_bare :
    directivesAmong (definitions.map Definition.bare) =
      (directivesAmong definitions).map (·.bare DirectiveDefinition.bare) := by
  rw [directivesAmong, directivesAmong, List.filterMap_map, List.map_filterMap]
  congr 1
  funext definition
  cases definition <;> rfl

theorem clausesAmong_map_bare :
    clausesAmong (definitions.map Definition.bare) =
      (clausesAmong definitions).map (·.bare ObjectExtension.bare) := by
  rw [clausesAmong, clausesAmong, List.filterMap_map, List.map_filterMap]
  congr 1
  funext definition
  cases definition <;> rfl

theorem clausesFor_map_bare (name : Name) :
    clausesFor (definitions.map Definition.bare) name =
      (clausesFor definitions name).map (·.bare ObjectExtension.bare) := by
  rw [clausesFor, clausesFor, clausesAmong_map_bare, List.filter_map]
  rfl

end Definition

namespace TypeDefinition

@[simp]
theorem text_name_bare (definition : TypeDefinition) :
    definition.bare.name.text = definition.name.text := by
  cases definition <;> rfl

@[simp]
theorem kind_bare (definition : TypeDefinition) : definition.bare.kind = definition.kind := by
  cases definition <;> rfl

theorem texts_members_bare (definition : TypeDefinition) :
    definition.bare.members.map (·.name.text) = definition.members.map (·.name.text) := by
  cases definition <;>
    simp [bare, Node.bare, members, fieldMentions, ScalarDefinition.bare, ObjectLikeDefinition.bare,
      EnumDefinition.bare, InputObjectDefinition.bare, FieldDefinition.bare,
      EnumValueDefinition.bare, InputValueDefinition.bare, Function.comp_def]

theorem texts_interfaces_bare (definition : TypeDefinition) :
    definition.bare.interfaces.map (·.name.text) = definition.interfaces.map (·.name.text) := by
  cases definition <;>
    simp [bare, Node.bare, interfaces, interfaceMentions, ObjectLikeDefinition.bare,
      Function.comp_def]

end TypeDefinition

/-! ## References without places -/

section References

variable {kinds : Name → Option TypeKind} (texts : ∀ name, kinds name.bare = kinds name)
include texts

theorem findsKind_iff_of_text {expected : ExpectedKind} {left right : Name}
    (same : left.text = right.text) :
    FindsKind kinds expected left ↔ FindsKind kinds expected right := by
  rw [FindsKind, FindsKind, ← texts left, ← texts right, Name.bare_eq_iff.2 same]

theorem InputValueDefinition.findsKind_bare_iff {definition : InputValueDefinition} :
    FindsKind kinds .input definition.bare.type.value.innerName ↔
      FindsKind kinds .input definition.type.value.innerName :=
  findsKind_iff_of_text texts (TypeReference.text_innerName_bare _)

theorem Node.fieldFinds_bare_iff {definition : Node FieldDefinition} :
    (definition.bare FieldDefinition.bare).FieldFinds kinds ↔ definition.FieldFinds kinds := by
  refine and_congr (findsKind_iff_of_text texts (TypeReference.text_innerName_bare _)) ?_
  refine List.forall_mem_map.trans (forall₂_congr fun argument _ => ?_)
  exact InputValueDefinition.findsKind_bare_iff texts

theorem forall_names_bare_iff {expected : ExpectedKind} {names : List Name} :
    (∀ name ∈ names.map (·.bare), FindsKind kinds expected name) ↔
      ∀ name ∈ names, FindsKind kinds expected name :=
  List.forall_mem_map.trans
    (forall₂_congr fun name _ => findsKind_iff_of_text texts (Name.text_bare name))

theorem forall_fields_bare_iff {definitions : List (Node FieldDefinition)} :
    (∀ field ∈ definitions.map (·.bare FieldDefinition.bare), field.FieldFinds kinds) ↔
      ∀ field ∈ definitions, field.FieldFinds kinds :=
  List.forall_mem_map.trans (forall₂_congr fun _ _ => Node.fieldFinds_bare_iff texts)

theorem forall_inputs_bare_iff {definitions : List (Node InputValueDefinition)} :
    (∀ input ∈ definitions.map (·.bare InputValueDefinition.bare),
        FindsKind kinds .input input.value.type.value.innerName) ↔
      ∀ input ∈ definitions, FindsKind kinds .input input.value.type.value.innerName :=
  List.forall_mem_map.trans
    (forall₂_congr fun _ _ => InputValueDefinition.findsKind_bare_iff texts)

theorem TypeDefinition.forall_references_bare_iff {definition : TypeDefinition} :
    (∀ reference ∈ definition.bare.references, reference.IsMet kinds) ↔
      ∀ reference ∈ definition.references, reference.IsMet kinds := by
  cases definition with
  | scalar definition | enum definition => rfl
  | object definition | interface definition =>
      refine (@forall_objectLikeReferences_iff kinds (definition.bare _)).trans
        (Iff.trans ?_ forall_objectLikeReferences_iff.symm)
      exact and_congr (forall_names_bare_iff texts) (forall_fields_bare_iff texts)
  | union definition =>
      refine (@forall_unionReferences_iff kinds (definition.bare _)).trans
        (Iff.trans ?_ forall_unionReferences_iff.symm)
      exact forall_names_bare_iff texts
  | inputObject definition =>
      refine forall_inputReference_iff.trans (Iff.trans ?_ forall_inputReference_iff.symm)
      exact forall_inputs_bare_iff texts

/-- **What definitions refer to does not depend on places.** -/
theorem Definition.forall_references_bare_iff {definition : Definition} :
    (∀ reference ∈ definition.bare.references, reference.IsMet kinds) ↔
      ∀ reference ∈ definition.references, reference.IsMet kinds := by
  cases definition with
  | directive definition =>
      refine forall_inputReference_iff.trans (Iff.trans ?_ forall_inputReference_iff.symm)
      exact forall_inputs_bare_iff texts
  | type definition => exact TypeDefinition.forall_references_bare_iff texts
  | objectExtension clause =>
      refine (@forall_clauseReferences_iff kinds _ (clause.bare _)).trans
        (Iff.trans ?_ forall_clauseReferences_iff.symm)
      exact and_congr (forall_names_bare_iff texts) (forall_fields_bare_iff texts)
  | otherExtension extension | unrelated definition => rfl

end References

/-! ## Admission without places -/

section Kinds

variable (base : Schema) (definitions : List Definition)

theorem Schema.kindWith?_name_bare (name : Name) :
    base.kindWith? definitions name.bare = base.kindWith? definitions name := by
  have same : (name.bare == name) = true := Name.beq_iff_text_eq.2 rfl
  rw [kindWith?, kindWith?, OrderedMap.get?_congr _ same]
  rfl

theorem Schema.kindWith?_map_bare :
    base.kindWith? (definitions.map Definition.bare) = base.kindWith? definitions := by
  have texts : ∀ name : Name, (fun definition : TypeDefinition => definition.name == name) ∘
      TypeDefinition.bare = fun definition => definition.name == name := by
    intro name
    funext definition
    rw [Function.comp_apply, Bool.eq_iff_iff, Name.beq_iff_text_eq, Name.beq_iff_text_eq,
      TypeDefinition.text_name_bare]
  funext name
  rw [kindWith?, kindWith?, Definition.typesAmong_map_bare, List.find?_map, texts, Option.map_map]
  congr 2
  funext definition
  exact definition.kind_bare

end Kinds

section Admission

variable {definitions others : List Definition}
  (same : definitions.map Definition.bare = others.map Definition.bare)
include same

theorem Definition.exists_of_map_bare {other : Definition} (member : other ∈ others) :
    ∃ definition ∈ definitions, definition.bare = other.bare :=
  List.mem_map.1 (same ▸ List.mem_map_of_mem member)

theorem Definition.map_bare_typesAmong :
    (typesAmong definitions).map (·.bare) = (typesAmong others).map (·.bare) := by
  rw [← typesAmong_map_bare, same, typesAmong_map_bare]

theorem Definition.map_bare_directivesAmong :
    (directivesAmong definitions).map (·.bare DirectiveDefinition.bare) =
      (directivesAmong others).map (·.bare DirectiveDefinition.bare) := by
  rw [← directivesAmong_map_bare, same, directivesAmong_map_bare]

theorem Definition.map_bare_clausesAmong :
    (clausesAmong definitions).map (·.bare ObjectExtension.bare) =
      (clausesAmong others).map (·.bare ObjectExtension.bare) := by
  rw [← clausesAmong_map_bare, same, clausesAmong_map_bare]

theorem Definition.map_bare_clausesFor (name : Name) :
    (clausesFor definitions name).map (·.bare ObjectExtension.bare) =
      (clausesFor others name).map (·.bare ObjectExtension.bare) := by
  rw [← clausesFor_map_bare, same, clausesFor_map_bare]

/-- **A schema that admits definitions admits those that are equal to them without places.** -/
theorem Schema.Admits.of_bare {base : Schema} (admits : base.Admits definitions) :
    base.Admits others := by
  have types := Definition.map_bare_typesAmong same
  have clauses := Definition.map_bare_clausesAmong same
  have kinds : base.kindWith? definitions = base.kindWith? others := by
    rw [← kindWith?_map_bare base definitions, same, kindWith?_map_bare]
  have exists_type : ∀ other ∈ Definition.typesAmong others,
      ∃ definition ∈ Definition.typesAmong definitions, definition.bare = other.bare :=
    fun other member => List.mem_map.1 (types ▸ List.mem_map_of_mem member)
  constructor
  case keywords =>
    intro extension member
    obtain ⟨definition, listed, twin⟩ := Definition.exists_of_map_bare same member
    cases definition with
    | otherExtension other => exact admits.keywords other listed
    | directive _ | type _ | objectExtension _ | unrelated _ => cases twin
  case targets =>
    intro clause member
    obtain ⟨other, listed, twin⟩ := List.mem_map.1 (clauses ▸ List.mem_map_of_mem member)
    have text : other.value.name.text = clause.value.name.text :=
      Name.bare_eq_iff.1 (congrArg (fun clause : Node ObjectExtension => clause.value.name) twin)
    rw [← OrderedMap.get?_congr _ (Name.beq_iff_text_eq.2 text)]
    exact admits.targets other listed
  case types =>
    refine admits.types.of_texts ?_
    have texts := congrArg (List.map fun definition : TypeDefinition => definition.name.text) types
    simpa [Function.comp_def] using texts
  case directives =>
    refine admits.directives.of_texts ?_
    have texts := congrArg (List.map (·.value.name.text)) (Definition.map_bare_directivesAmong same)
    rw [List.map_map, List.map_map] at texts ⊢
    exact texts
  case extensionFields =>
    intro name type found
    refine (admits.extensionFields found).of_texts ?_
    have texts := congrArg (List.flatMap fun clause : Node ObjectExtension =>
      clause.value.fields.map (·.value.name.text)) (Definition.map_bare_clausesFor same name)
    simpa [List.flatMap_map, List.map_flatMap, Function.comp_def, Node.bare, ObjectExtension.bare,
      FieldDefinition.bare] using texts
  case extensionInterfaces =>
    intro name type found
    refine (admits.extensionInterfaces found).of_texts ?_
    have texts := congrArg (List.flatMap fun clause : Node ObjectExtension =>
      clause.value.interfaces.map (·.text)) (Definition.map_bare_clausesFor same name)
    simpa [List.flatMap_map, List.map_flatMap, Function.comp_def, Node.bare, ObjectExtension.bare]
      using texts
  case members =>
    intro other member
    obtain ⟨definition, listed, twin⟩ := exists_type other member
    refine (admits.members definition listed).of_texts ?_
    rw [List.map_map, List.map_map]
    exact definition.texts_members_bare.symm.trans (twin ▸ other.texts_members_bare)
  case interfaces =>
    intro other member
    obtain ⟨definition, listed, twin⟩ := exists_type other member
    refine (admits.interfaces definition listed).of_texts ?_
    rw [List.map_map, List.map_map]
    exact definition.texts_interfaces_bare.symm.trans (twin ▸ other.texts_interfaces_bare)
  case references =>
    intro other member
    obtain ⟨definition, listed, twin⟩ := Definition.exists_of_map_bare same member
    have met := admits.references definition listed
    have texts := base.kindWith?_name_bare definitions
    rw [← kinds, ← Definition.forall_references_bare_iff texts, ← twin,
      Definition.forall_references_bare_iff texts]
    exact met

end Admission

end SchemaGraft
