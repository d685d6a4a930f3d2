import SchemaGraft.Proofs.Closure
import SchemaGraft.Proofs.DocumentPlaces
import SchemaGraft.Proofs.Extension.TwoRuns

/-!
# Where the parts of a schema come from

`Schema.places` lists what the nodes and names of a schema say of where they were read, those of the
keys of its maps among them. An extension brings in nothing from elsewhere: all places in it are
places of the schema that was extended or of the document (`Schema.places_extend_subset`).

Most of this can be read off the merge. Only the keys of types cannot: a type is stored under the
name by which it was first asked for, which may be any mention of it, and there the build has to be
followed (`Build.agree_schema`).
-/

set_option autoImplicit false

namespace SchemaGraft

/-! ## Places of schemas -/

/-- The places of the keys of a map and of what is stored under them. -/
def NameMap.places {α : Type} (inside : α → List (Option Location)) (map : NameMap α) :
    List (Option Location) :=
  map.entries.flatMap fun entry => entry.1.location :: inside entry.2

/-- The places of what is in a field. -/
def Field.places (field : Field) : List (Option Location) :=
  field.name.location :: (field.type.places TypeReference.places ++
    field.arguments.flatMap (Node.places InputValueDefinition.places) ++
    Directives.places field.directives)

/-- The places of what is in an enum value. -/
def EnumValue.places (value : EnumValue) : List (Option Location) :=
  value.name.location :: Directives.places value.directives

/-- The places of what is in an object or interface type. -/
def ObjectLikeType.places (type : ObjectLikeType) : List (Option Location) :=
  type.name.location :: (Directives.places type.directives ++
    type.interfaces.keys.map Name.location ++ type.fields.places (Node.places Field.places))

/-- The places of what is in a union type. -/
def UnionType.places (type : UnionType) : List (Option Location) :=
  type.name.location :: (Directives.places type.directives ++ type.members.keys.map Name.location)

/-- The places of what is in an enum type. -/
def EnumType.places (type : EnumType) : List (Option Location) :=
  type.name.location :: (Directives.places type.directives ++
    type.values.places (Node.places EnumValue.places))

/-- The places of what is in an input object type. -/
def InputObjectType.places (type : InputObjectType) : List (Option Location) :=
  type.name.location :: (Directives.places type.directives ++
    type.fields.places (Node.places InputValueDefinition.places))

/-- The places of a type and of what is in it. -/
def SchemaType.places : SchemaType → List (Option Location)
  | scalar type => type.places ScalarDefinition.places
  | object type => type.places ObjectLikeType.places
  | interface type => type.places ObjectLikeType.places
  | union type => type.places UnionType.places
  | enum type => type.places EnumType.places
  | inputObject type => type.places InputObjectType.places

theorem SchemaType.location_mem_places (type : SchemaType) : type.location ∈ type.places := by
  cases type <;> exact List.mem_cons_self

/-- All places that are stored in a schema. -/
def Schema.places (schema : Schema) : List (Option Location) :=
  schema.directives.places (Node.places DirectiveDefinition.places) ++
    schema.types.places SchemaType.places ++
    schema.roots.toList.map fun root => root.2.location

/-- The places of all definitions of a document. -/
def Document.places (document : Document) : List (Option Location) :=
  document.definitions.flatMap Definition.places

/-- All places in a document that was read lie in its file. -/
theorem Document.liesIn_of_mem_places {limits : ReadingLimits} {file : FileId}
    {source : SourceFile} :
    ∀ place ∈ (Document.parse limits file source).document.places, LiesIn file place :=
  fun place member => (Tree.arePlaced_definitions (Tree.beginsAt_true _) place member).liesIn

/-! ## Places of a merge -/

section Merge

variable {run : ExtensionRun} {P : Option Location → Prop}

/-- Entries that are made of definitions have the places of these. -/
theorem forall_places_entries {α β : Type} (inside : α → List (Option Location))
    (insideItem : β → List (Option Location)) {items : List β} {name : β → Name} {value : β → α}
    (same : ∀ item, inside (value item) = insideItem item)
    (named : ∀ item, (name item).location ∈ insideItem item)
    (written : ∀ place ∈ items.flatMap insideItem, P place) :
    ∀ place ∈ (items.map fun item => (name item, value item)).flatMap
      fun entry => entry.1.location :: inside entry.2, P place := by
  rw [List.forall_mem_flatMap] at written
  rw [List.flatMap_map, List.forall_mem_flatMap]
  intro item member
  rw [same, List.forall_mem_cons]
  exact ⟨written item member _ (named item), written item member⟩

theorem forall_places_fieldEntries {key type : Name} {fields : List (Node FieldDefinition)}
    (written : ∀ place ∈ fields.flatMap (Node.places FieldDefinition.places), P place) :
    ∀ place ∈ (fieldEntries run key type fields).flatMap
      fun entry => entry.1.location :: entry.2.places Field.places, P place :=
  forall_places_entries (Node.places Field.places) (Node.places FieldDefinition.places)
    (fun _ => rfl) (fun _ => List.mem_cons_of_mem _ List.mem_cons_self) written

/-- What an extended type has was there before or is in its extensions. -/
theorem HasExtensions.forall_places {key : Name} {base extended : Node ObjectLikeType}
    {clauses : List (Node ObjectExtension)} (has : HasExtensions run key base clauses extended)
    (kept : ∀ place ∈ base.places ObjectLikeType.places, P place)
    (written : ∀ clause ∈ clauses, ∀ place ∈ clause.places ObjectExtension.places, P place) :
    ∀ place ∈ extended.places ObjectLikeType.places, P place := by
  simp only [Node.places, ObjectLikeType.places, ObjectExtension.places, NameMap.places,
    Directives.places, has.location, has.name, has.directives, has.interfaces, has.fields,
    List.flatMap_append, List.map_append, List.forall_mem_cons, List.forall_mem_append]
    at kept written ⊢
  obtain ⟨location, name, ⟨directives, interfaces⟩, fields⟩ := kept
  refine ⟨location, name, ⟨⟨directives, ?_⟩, interfaces, ?_⟩, fields, ?_⟩
  · rw [List.flatMap_assoc, List.forall_mem_flatMap]
    exact fun clause member => (written clause member).2.2.1.1
  · rw [List.map_flatMap, List.forall_mem_flatMap]
    exact fun clause member => (written clause member).2.2.1.2
  · refine forall_places_fieldEntries ?_
    rw [List.flatMap_assoc, List.forall_mem_flatMap]
    exact fun clause member => (written clause member).2.2.2

namespace TypeDefinition

theorem MakesObjectLike.forall_places {definition : Node ObjectLikeDefinition}
    {type : Node ObjectLikeType} (makes : MakesObjectLike run definition type)
    (location : type.location = definition.location)
    (name : type.value.name = definition.value.name)
    (directives : type.value.directives = definition.value.directives)
    (written : ∀ place ∈ definition.places ObjectLikeDefinition.places, P place) :
    ∀ place ∈ type.places ObjectLikeType.places, P place := by
  simp only [Node.places, ObjectLikeType.places, ObjectLikeDefinition.places, NameMap.places,
    location, name, directives, makes.interfaces, makes.fields, List.forall_mem_cons,
    List.forall_mem_append] at written ⊢
  obtain ⟨location, name, ⟨directives, interfaces⟩, fields⟩ := written
  exact ⟨location, name, ⟨directives, interfaces⟩, forall_places_fieldEntries fields⟩

/-- What a new type has is in its definition. -/
theorem Makes.forall_places {definition : TypeDefinition} {type : SchemaType}
    (makes : definition.Makes run type) (written : ∀ place ∈ definition.places, P place) :
    ∀ place ∈ type.places, P place := by
  have members := makes.members
  have location := makes.location
  have name := makes.name
  have directives := makes.directives
  cases definition <;> cases type <;> first | exact members.elim | skip
  all_goals
    simp only [SchemaType.location, TypeDefinition.location, SchemaType.name, TypeDefinition.name,
      SchemaType.directives, TypeDefinition.directives] at location name directives
  case scalar definition type =>
      simp only [TypeDefinition.places, SchemaType.places, Node.places, ScalarDefinition.places,
        location, name, directives] at written ⊢
      exact written
  case object definition type | interface definition type =>
      exact MakesObjectLike.forall_places members location name directives written
  case union definition type =>
      have keys : type.value.members.keys = _ := members
      simp only [TypeDefinition.places, SchemaType.places, Node.places, UnionDefinition.places,
        UnionType.places, location, name, directives, keys, List.forall_mem_cons,
        List.forall_mem_append, List.forall_mem_map] at written ⊢
      obtain ⟨location, name, directives, members⟩ := written
      exact ⟨location, name, directives, fun member listed =>
        members member (Name.mem_of_mem_distinct listed)⟩
  case enum definition type =>
      have entries : type.value.values.entries = _ := members
      simp only [TypeDefinition.places, SchemaType.places, Node.places, EnumDefinition.places,
        EnumType.places, NameMap.places, location, name, directives, entries, List.forall_mem_cons,
        List.forall_mem_append] at written ⊢
      obtain ⟨location, name, directives, values⟩ := written
      exact ⟨location, name, directives, forall_places_entries (Node.places EnumValue.places)
        (Node.places EnumValueDefinition.places) (fun _ => rfl)
        (fun _ => List.mem_cons_of_mem _ List.mem_cons_self) values⟩
  case inputObject definition type =>
      have entries : type.value.fields.entries = _ := members
      simp only [TypeDefinition.places, SchemaType.places, Node.places,
        InputObjectDefinition.places, InputObjectType.places, NameMap.places, location, name,
        directives, entries, List.forall_mem_cons, List.forall_mem_append] at written ⊢
      obtain ⟨location, name, directives, fields⟩ := written
      exact ⟨location, name, directives, forall_places_entries
        (Node.places InputValueDefinition.places) (Node.places InputValueDefinition.places)
        (fun _ => rfl) (fun _ => List.mem_cons_of_mem _ List.mem_cons_self) fields⟩

end TypeDefinition

/-- What holds for all places in a schema holds for those in a type that it has. -/
theorem Schema.forall_places_types {base : Schema} (kept : ∀ place ∈ base.places, P place)
    {name : Name} {type : SchemaType} (found : base.types.get? name = some type) :
    ∀ place ∈ type.places, P place := by
  obtain ⟨key, stored, _⟩ := (OrderedMap.get?_eq_some_iff _ _ _).1 found
  have types := (List.forall_mem_append.1 (List.forall_mem_append.1 kept).1).2
  exact fun place inside =>
    types place (List.mem_flatMap.2 ⟨_, stored, List.mem_cons_of_mem _ inside⟩)

/-- **A merge has the places of the schema and the document**, but for the names under which types
are stored. -/
theorem Schema.IsMerge.forall_places {base merged : Schema} {definitions : List Definition}
    (admits : base.Admits definitions) (isMerge : Schema.IsMerge run base definitions merged)
    (kept : ∀ place ∈ base.places, P place)
    (written : ∀ definition ∈ definitions, ∀ place ∈ definition.places, P place)
    (keys : ∀ key ∈ merged.types.keys, P key.location) :
    ∀ place ∈ merged.places, P place := by
  have found := fun {name type} => @Schema.forall_places_types P base kept name type
  simp only [Schema.places, List.forall_mem_append] at kept ⊢
  obtain ⟨⟨directives, types⟩, roots⟩ := kept
  refine ⟨⟨?_, ?_⟩, by rwa [isMerge.roots]⟩
  · rw [NameMap.places, isMerge.directives, List.flatMap_append, List.forall_mem_append]
    refine ⟨directives, forall_places_entries (Node.places DirectiveDefinition.places)
      (Node.places DirectiveDefinition.places) (fun _ => rfl)
      (fun _ => List.mem_cons_of_mem _ List.mem_cons_self) ?_⟩
    refine List.forall_mem_flatMap.2 fun definition member => ?_
    exact written _ (Definition.mem_directivesAmong_iff.1 member)
  · refine List.forall_mem_flatMap.2 fun ⟨key, type⟩ member => ?_
    refine List.forall_mem_cons.2 ⟨keys key (List.mem_map_of_mem member), ?_⟩
    obtain ⟨stored, _⟩ | ⟨object, extended, stored, _, rfl, extension⟩ |
        ⟨definition, listed, _, makes⟩ :=
      isMerge.type_cases admits (OrderedMap.get?_of_mem member)
    · exact found stored
    · refine extension.toHasExtensions.forall_places (found stored) fun clause listed => ?_
      exact written _ (Definition.mem_clausesAmong_iff.1 (Definition.mem_clausesFor_iff.1 listed).1)
    · exact makes.forall_places (written _ (Definition.mem_typesAmong_iff.1 listed))

end Merge

/-! ## Places of what a document mentions -/

/-- Something holds for the places of a reference and of the name that it leads to. -/
structure Reference.HasPlaces (P : Option Location → Prop) (reference : Reference) : Prop where
  name : P reference.name.location
  itself : P reference.location

section Mentions

variable {P : Option Location → Prop}

/-- A name in a list is shown where it is, or else where the list is. -/
theorem or_place {place other : Option Location} (here : P place) (there : P other) :
    P (place.or other) := by
  cases place with
  | none => exact there
  | some location => exact here

/-- References from a list of names, of interfaces or of the members of a union. -/
theorem hasPlaces_listedReferences {location : Option Location} {names : List Name}
    (expected : ExpectedKind) (site : ReferenceSite) (here : P location)
    (written : ∀ place ∈ names.map Name.location, P place) :
    ∀ reference ∈ names.map fun name =>
        (⟨name, name.location.or location, expected, site⟩ : Reference),
      reference.HasPlaces P := by
  rw [List.forall_mem_map] at written
  exact List.forall_mem_map.2 fun name member =>
    ⟨written name member, or_place (written name member) here⟩

theorem Node.hasPlaces_inputReference {site : Name → ReferenceSite}
    {definition : Node InputValueDefinition}
    (written : ∀ place ∈ definition.places InputValueDefinition.places, P place) :
    (definition.inputReference site).HasPlaces P where
  name := written _ (by simp [Node.inputReference, Node.places, InputValueDefinition.places,
    TypeReference.places])
  itself := written _ (by simp [Node.inputReference, Node.places, InputValueDefinition.places])

theorem hasPlaces_inputReferences {site : Name → ReferenceSite}
    {definitions : List (Node InputValueDefinition)}
    (written : ∀ place ∈ definitions.flatMap (Node.places InputValueDefinition.places), P place) :
    ∀ reference ∈ definitions.map (Node.inputReference site), reference.HasPlaces P :=
  List.forall_mem_map.2 fun definition member =>
    definition.hasPlaces_inputReference (List.forall_mem_flatMap.1 written definition member)

theorem hasPlaces_fieldReferences {type : Name} {fields : List (Node FieldDefinition)}
    (written : ∀ place ∈ fields.flatMap (Node.places FieldDefinition.places), P place) :
    ∀ reference ∈ fields.flatMap (Node.fieldReferences type), reference.HasPlaces P := by
  refine List.forall_mem_flatMap.2 fun field member => ?_
  have written := List.forall_mem_flatMap.1 written field member
  simp only [Node.places, FieldDefinition.places, TypeReference.places, List.forall_mem_cons,
    List.forall_mem_append] at written
  obtain ⟨_, _, ⟨⟨type, name, _⟩, arguments⟩, _⟩ := written
  exact List.forall_mem_cons.2 ⟨⟨name, type⟩, hasPlaces_inputReferences arguments⟩

theorem Node.hasPlaces_clauseReferences {type : Name} {clause : Node ObjectExtension}
    (written : ∀ place ∈ clause.places ObjectExtension.places, P place) :
    ∀ reference ∈ clause.clauseReferences type, reference.HasPlaces P := by
  simp only [Node.places, ObjectExtension.places, List.forall_mem_cons,
    List.forall_mem_append] at written
  obtain ⟨itself, _, ⟨_, interfaces⟩, fields⟩ := written
  exact List.forall_mem_append.2
    ⟨hasPlaces_listedReferences _ _ itself interfaces, hasPlaces_fieldReferences fields⟩

theorem TypeDefinition.hasPlaces_references {definition : TypeDefinition}
    (written : ∀ place ∈ definition.places, P place) :
    ∀ reference ∈ definition.references, reference.HasPlaces P := by
  cases definition with
  | scalar definition | enum definition =>
      exact fun reference member => absurd member List.not_mem_nil
  | object definition | interface definition =>
      simp only [places, Node.places, ObjectLikeDefinition.places, List.forall_mem_cons,
        List.forall_mem_append] at written
      obtain ⟨itself, _, ⟨_, interfaces⟩, fields⟩ := written
      exact List.forall_mem_append.2
        ⟨hasPlaces_listedReferences _ _ itself interfaces, hasPlaces_fieldReferences fields⟩
  | union definition =>
      simp only [places, Node.places, UnionDefinition.places, List.forall_mem_cons,
        List.forall_mem_append] at written
      obtain ⟨itself, _, _, members⟩ := written
      exact hasPlaces_listedReferences _ _ itself members
  | inputObject definition =>
      simp only [places, Node.places, InputObjectDefinition.places, List.forall_mem_cons,
        List.forall_mem_append] at written
      obtain ⟨_, _, _, fields⟩ := written
      exact hasPlaces_inputReferences fields

end Mentions

/-! ## Places of an extension -/

namespace ExtensionPlan

variable {base : Schema} {definitions : List Definition} {plan next : ExtensionPlan}

theorem exists_clause_of_add {definition : Definition}
    (added : plan.add base definition = .ok next) {key : Name} (member : key ∈ next.extended.keys) :
    key ∈ plan.extended.keys ∨
      ∃ clause, definition = .objectExtension clause ∧ clause.value.name = key := by
  cases definition with
  | objectExtension extension =>
      rw [add, addExtension] at added
      cases aimed : target base extension.value.name extension.location with
      | error rejection =>
          rw [aimed] at added
          cases added
      | ok type =>
          rw [aimed] at added
          cases added
          rcases OrderedMap.mem_keys_insert member with rfl | member
          · exact .inr ⟨extension, rfl, rfl⟩
          · exact .inl member
  | otherExtension extension => cases added
  | type definition =>
      simp only [add, addType] at added
      split at added <;> cases added
      exact .inl member
  | directive definition | unrelated definition =>
      cases added
      exact .inl member

/-- Extensions are planned under the name of one of them. -/
theorem exists_clause_of_ofDefinitions (planned : ofDefinitions base definitions = .ok plan) :
    ∀ key ∈ plan.extended.keys,
      ∃ clause, .objectExtension clause ∈ definitions ∧ clause.value.name = key := by
  induction definitions using List.reverseRecOn generalizing plan with
  | nil =>
      cases planned
      exact fun key member => absurd member List.not_mem_nil
  | append_singleton before definition ih =>
      intro key member
      rw [ofDefinitions_append_singleton] at planned
      cases earlier : ofDefinitions base before with
      | error rejection =>
          rw [earlier] at planned
          cases planned
      | ok middle =>
          rw [earlier] at planned
          rcases exists_clause_of_add planned member with member | ⟨clause, rfl, same⟩
          · obtain ⟨clause, listed, same⟩ := ih earlier key member
            exact ⟨clause, List.mem_append_left _ listed, same⟩
          · exact ⟨clause, List.mem_append_right _ (List.mem_singleton_self _), same⟩

/-- Building asks for nothing but names in the document. -/
theorem asksOnly_of_ofDefinitions {P : Option Location → Prop}
    (planned : ofDefinitions base definitions = .ok plan)
    (written : ∀ definition ∈ definitions, ∀ place ∈ definition.places, P place) :
    Build.AsksOnly (fun name => P name.location) plan := by
  have isFor := isFor_of_ofDefinitions planned
  exact
    { extended := by
        intro name extended stored clause member reference listed
        rw [(isFor.extended_eq stored).2.1, Definition.mem_clausesFor_iff,
          Definition.mem_clausesAmong_iff] at member
        exact (clause.hasPlaces_clauseReferences (written _ member.1) reference listed).name
      types := by
        intro name definition stored reference listed
        rw [isFor.get?_newTypes] at stored
        have member := Definition.mem_typesAmong_iff.1 (List.mem_of_find?_eq_some stored)
        exact (TypeDefinition.hasPlaces_references (written _ member) reference listed).name
      directives := by
        intro definition member reference listed
        rw [isFor.newDirectives, Definition.mem_directivesAmong_iff] at member
        have arguments := (List.forall_mem_cons.1 (List.forall_mem_cons.1 (written _ member)).2).2
        exact (hasPlaces_inputReferences arguments reference listed).name
      keys := by
        refine List.forall_mem_append.2 ⟨fun key member => ?_, ?_⟩
        · obtain ⟨clause, listed, rfl⟩ := exists_clause_of_ofDefinitions planned key member
          exact written _ listed _ (List.mem_cons_of_mem _ List.mem_cons_self)
        · rw [isFor.keys_newTypes]
          refine List.forall_mem_map.2 fun definition member => ?_
          have placed := written _ (Definition.mem_typesAmong_iff.1 member)
          cases definition <;> exact placed _ (List.mem_cons_of_mem _ List.mem_cons_self) }

end ExtensionPlan

/-- **All places in what carrying out a plan gives are places of the schema or the document.** -/
theorem Schema.forall_places_carryOut {P : Option Location → Prop} {run : ExtensionRun}
    {base merged : Schema} {document : Document} {plan : ExtensionPlan}
    (planned : ExtensionPlan.ofDefinitions base document.definitions = .ok plan)
    (succeeds : (base.carryOut run document plan).result = .ok merged)
    (kept : ∀ place ∈ base.places, P place) (written : ∀ place ∈ document.places, P place) :
    ∀ place ∈ merged.places, P place := by
  rw [Document.places, List.forall_mem_flatMap] at written
  have carried := Schema.carryOut_spec run (ExtensionPlan.isFor_of_ofDefinitions planned)
  rw [succeeds] at carried
  obtain ⟨admits, isMerge, _⟩ := carried
  refine isMerge.forall_places admits kept written fun key member => ?_
  have agree := @Build.agree_schema _ (run.context base plan) (run.context base plan) rfl rfl
    (ExtensionPlan.asksOnly_of_ofDefinitions planned written) (base.sourcesWith document)
  have ends := agree .initial .initial rfl fun _ member => absurd member List.not_mem_nil
  obtain ⟨state, built⟩ := Schema.exists_build_of_carryOut succeeds
  rw [built] at ends
  cases ends with
  | ok results =>
      rcases results.2 key member with member | asked
      · obtain ⟨entry, listed, rfl⟩ := List.mem_map.1 member
        have types := (List.forall_mem_append.1 (List.forall_mem_append.1 kept).1).2
        exact types _ (List.mem_flatMap.2 ⟨entry, listed, List.mem_cons_self⟩)
      · exact asked

/-- **An extension brings in no places from elsewhere.** -/
theorem Schema.places_extend_subset {run : ExtensionRun} {base : Schema} {document : Document}
    {extended : ExtendedSchema} (succeeds : (base.extend run document).result = .ok extended) :
    (extended.over base).places ⊆ base.places ++ document.places := by
  obtain ⟨plan, planned, ⟨_, same⟩ | carried⟩ := Schema.exists_plan_of_extend succeeds
  · rw [same]
    exact List.subset_append_left _ _
  · exact Schema.forall_places_carryOut planned carried (fun _ => List.mem_append_left _)
      fun _ => List.mem_append_right _

/-- What a document defines that can stand alone is nothing or what carrying out its plan gives. -/
theorem Schema.ofDocument_cases (document : Document) :
    Schema.ofDocument document = .empty ∨
      ∃ plan, ExtensionPlan.ofDefinitions .empty document.definitions = .ok plan ∧
        (Schema.carryOut ⟨0, .none⟩ .empty document plan).result =
          .ok (Schema.ofDocument document) := by
  unfold Schema.ofDocument
  cases planned : ExtensionPlan.ofDefinitions .empty document.definitions with
  | error _ => exact .inl rfl
  | ok plan =>
      cases result : (Schema.carryOut ⟨0, .none⟩ .empty document plan).result with
      | error _ => exact .inl (by simp [result])
      | ok schema => exact .inr ⟨plan, rfl, by simp [result]⟩

theorem Schema.places_ofDocument_subset (document : Document) :
    (Schema.ofDocument document).places ⊆ document.places := by
  have none : ∀ place ∈ Schema.empty.places, place ∈ document.places :=
    fun _ member => absurd member List.not_mem_nil
  rcases Schema.ofDocument_cases document with same | ⟨plan, planned, carried⟩
  · rw [same]
    exact none
  · exact Schema.forall_places_carryOut planned carried none fun _ member => member

/-- What a text defines that can stand alone lies in the file of the text. -/
theorem Schema.liesIn_ofDocument {limits : ReadingLimits} {file : FileId} {source : SourceFile} :
    ∀ place ∈ (Schema.ofDocument (Document.parse limits file source).document).places,
      LiesIn file place :=
  fun place member =>
    Document.liesIn_of_mem_places place (Schema.places_ofDocument_subset _ member)

end SchemaGraft
