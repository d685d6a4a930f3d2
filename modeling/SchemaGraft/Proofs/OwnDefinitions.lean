import SchemaGraft.Proofs.BareContent
import SchemaGraft.Proofs.BuiltIn
import SchemaGraft.Proofs.SchemaPlaces

/-!
# What schemas have of their own

A schema that texts lead to begins with what is built in, each type as it was, and goes on with the
types and directives of these texts (`Schema.ReachableByReading.isBuiltUp`). Built-in types cannot
be extended, for they are no object types. That a definition is built in is told by the file that it
lies in, and so all others are a schema's own (`Schema.IsBuiltUp.types_eq`,
`Schema.IsBuiltUp.directives_eq`).

A type of its own has under the name of each member what the definition of that member makes
(`SchemaType.IsAsDefined`), whatever extension the member comes from.
-/

set_option autoImplicit false

namespace SchemaGraft

/-! ## What is built in lies in a file of its own -/

theorem Node.isBuiltIn_eq {α : Type} (node : Node α) :
    node.isBuiltIn = node.location.any (·.file == .builtIn) := by
  unfold isBuiltIn
  cases node.location <;> rfl

theorem SchemaType.isBuiltIn_eq (type : SchemaType) :
    type.isBuiltIn = type.location.any (·.file == .builtIn) := by
  cases type <;> exact Node.isBuiltIn_eq _

theorem LiesIn.any_eq {file other : FileId} {location : Option Location}
    (lies : LiesIn file location) : location.any (·.file == other) = (file == other) := by
  cases location with
  | none => cases lies
  | some location =>
      cases lies
      rfl

/-- What lies in the file of what is built in is marked as such. -/
theorem Schema.isBuiltIn_of_liesIn {schema : Schema}
    (lies : ∀ place ∈ schema.places, LiesIn .builtIn place) :
    (∀ type ∈ schema.types.values, type.isBuiltIn = true) ∧
      ∀ directive ∈ schema.directives.values, directive.isBuiltIn = true := by
  constructor
  · intro type member
    obtain ⟨entry, listed, rfl⟩ := List.mem_map.1 member
    have types := (List.forall_mem_append.1 (List.forall_mem_append.1 lies).1).2
    have placed := types _ (List.mem_flatMap.2
      ⟨entry, listed, List.mem_cons_of_mem _ entry.2.location_mem_places⟩)
    rw [SchemaType.isBuiltIn_eq, placed.any_eq, beq_self_eq_true]
  · intro directive member
    obtain ⟨entry, listed, rfl⟩ := List.mem_map.1 member
    have directives := (List.forall_mem_append.1 (List.forall_mem_append.1 lies).1).1
    have placed := directives _ (List.mem_flatMap.2
      ⟨entry, listed, List.mem_cons_of_mem _ List.mem_cons_self⟩)
    rw [Node.isBuiltIn_eq, placed.any_eq, beq_self_eq_true]

/-- All types and directives that every schema starts with are marked as built in. -/
theorem Schema.isBuiltIn_builtIn :
    (∀ type ∈ Schema.builtIn.types.values, type.isBuiltIn = true) ∧
      ∀ directive ∈ Schema.builtIn.directives.values, directive.isBuiltIn = true :=
  Schema.isBuiltIn_of_liesIn (@Schema.liesIn_ofDocument {} .builtIn BuiltIn.source)

/-! ## Own definitions -/

namespace Schema

/-- The types that the text of a schema defines. -/
def ownTypes (schema : Schema) : List SchemaType :=
  schema.types.values.filter fun type => !type.isBuiltIn

/-- The directives that the text of a schema defines. -/
def ownDirectives (schema : Schema) : List (Node DirectiveDefinition) :=
  schema.directives.values.filter fun directive => !directive.isBuiltIn

end Schema

/-! ## Types as they are defined -/

/-- Under each name a type has the member of that name as its definition makes it, resolvers
aside. -/
structure SchemaType.IsAsDefined (type : SchemaType) : Prop where
  fields : ∀ entry ∈ type.fieldContents, entry.1.text = entry.2.2.name.text ∧
    entry.2.2.deprecation = Deprecation.ofDirectives? entry.2.2.directives
  values : ∀ entry ∈ type.valueContents, entry.1.text = entry.2.2.name.text ∧
    entry.2.2.deprecation = Deprecation.ofDirectives? entry.2.2.directives ∧
      entry.2.2.internalValue = .string entry.2.2.name.text
  inputFields : ∀ entry ∈ type.inputFieldEntries, entry.1.text = entry.2.value.name.text

section Merge

variable {run : ExtensionRun}

theorem areAsDefined_fieldEntries {key type : Name} {fields : List (Node FieldDefinition)} :
    ∀ entry ∈ (fieldEntries run key type fields).map fun entry =>
        (entry.1, entry.2.location, entry.2.value),
      entry.1.text = entry.2.2.name.text ∧
        entry.2.2.deprecation = Deprecation.ofDirectives? entry.2.2.directives := by
  rw [fieldEntries, List.forall_mem_map, List.forall_mem_map]
  exact fun _ _ => ⟨rfl, rfl⟩

theorem HasExtensions.isAsDefined {key : Name} {base extended : Node ObjectLikeType}
    {clauses : List (Node ObjectExtension)} (has : HasExtensions run key base clauses extended)
    (asDefined : (SchemaType.object base).IsAsDefined) :
    (SchemaType.object extended).IsAsDefined where
  fields := by
    show ∀ entry ∈ NameMap.contents extended.value.fields, _
    rw [NameMap.contents, has.fields, List.map_append, List.forall_mem_append]
    exact ⟨asDefined.fields, areAsDefined_fieldEntries⟩
  values := List.forall_mem_nil _
  inputFields := List.forall_mem_nil _

/-- A new type is as its definition makes it. -/
theorem TypeDefinition.Makes.isAsDefined {definition : TypeDefinition} {type : SchemaType}
    (makes : definition.Makes run type) : type.IsAsDefined := by
  have members := makes.members
  cases definition <;> cases type <;> first | exact members.elim | skip
  case scalar definition type | union definition type =>
      exact ⟨List.forall_mem_nil _, List.forall_mem_nil _, List.forall_mem_nil _⟩
  case object definition type | interface definition type =>
      have members : MakesObjectLike run definition type := members
      refine ⟨?_, List.forall_mem_nil _, List.forall_mem_nil _⟩
      show ∀ entry ∈ NameMap.contents type.value.fields, _
      rw [NameMap.contents, members.fields]
      exact areAsDefined_fieldEntries
  case enum definition type =>
      have entries : type.value.values.entries = _ := members
      refine ⟨List.forall_mem_nil _, ?_, List.forall_mem_nil _⟩
      show ∀ entry ∈ NameMap.contents type.value.values, _
      rw [NameMap.contents, entries, List.forall_mem_map, List.forall_mem_map]
      exact fun _ _ => ⟨rfl, rfl, rfl⟩
  case inputObject definition type =>
      have entries : type.value.fields.entries = _ := members
      refine ⟨List.forall_mem_nil _, List.forall_mem_nil _, ?_⟩
      show ∀ entry ∈ type.value.fields.entries, _
      rw [entries, List.forall_mem_map]
      exact fun _ _ => rfl

end Merge

/-! ## Schemas that texts lead to -/

/-- A schema has what is built in first and as it was, and then what is its own. -/
structure Schema.IsBuiltUp (schema : Schema) : Prop where
  typeNames : ∃ more, NameMap.texts schema.types = NameMap.texts Schema.builtIn.types ++ more
  kept : ∀ {name type}, Schema.builtIn.types.get? name = some type →
    schema.types.get? name = some type
  own : ∀ {name type}, schema.types.get? name = some type →
    Schema.builtIn.types.get? name = none →
    type.isBuiltIn = false ∧ type.name.text = name.text ∧ type.IsAsDefined
  directives : ∃ own : List (Node DirectiveDefinition),
    schema.directives.entries = Schema.builtIn.directives.entries ++
      own.map (fun directive => (directive.value.name, directive)) ∧
    ∀ directive ∈ own, directive.isBuiltIn = false

theorem Schema.isBuiltUp_builtIn : Schema.builtIn.IsBuiltUp where
  typeNames := ⟨[], by rw [List.append_nil]⟩
  kept found := found
  own found absent := by
    rw [absent] at found
    cases found
  directives := ⟨[], by rw [List.map_nil, List.append_nil], List.forall_mem_nil _⟩

theorem isBuiltIn_eq_false_of_liesIn {serial : Nat} {location : Option Location}
    (lies : LiesIn (.document serial) location) :
    location.any (·.file == FileId.builtIn) = false := by
  rw [lies.any_eq]
  rfl

/-- **A merge with what a text defines is built up from what was.** -/
theorem Schema.IsMerge.isBuiltUp {run : ExtensionRun} {base merged : Schema}
    {definitions : List Definition} {serial : Nat} (admits : base.Admits definitions)
    (isMerge : Schema.IsMerge run base definitions merged)
    (lie : ∀ definition ∈ definitions, definition.LiesInFile (.document serial))
    (builtUp : base.IsBuiltUp) : merged.IsBuiltUp where
  typeNames := by
    obtain ⟨more, texts⟩ := builtUp.typeNames
    exact ⟨_, by rw [isMerge.typeNames, texts, List.append_assoc]⟩
  kept := by
    intro name type found
    have before := builtUp.kept found
    refine isMerge.kept before (List.eq_nil_iff_forall_not_mem.2 fun clause listed => ?_)
    obtain ⟨listed, same⟩ := Definition.mem_clausesFor_iff.1 listed
    obtain ⟨object, target⟩ := admits.targets clause listed
    rw [OrderedMap.get?_congr _ same, before, Option.some.injEq] at target
    obtain ⟨key, stored, _⟩ := (OrderedMap.get?_eq_some_iff _ _ _).1 found
    have kind := Schema.kind_of_builtIn (List.mem_map_of_mem stored)
    rw [target] at kind
    cases kind
  own := by
    intro name type found absent
    obtain ⟨before, _⟩ | ⟨object, extended, before, _, rfl, extension⟩ |
        ⟨definition, member, same, makes⟩ := isMerge.type_cases admits found
    · exact builtUp.own before absent
    · obtain ⟨foreign, named, asDefined⟩ := builtUp.own before absent
      have location : SchemaType.location (.object extended) =
          SchemaType.location (.object object) := extension.location
      refine ⟨?_, ?_, extension.toHasExtensions.isAsDefined asDefined⟩
      · rwa [SchemaType.isBuiltIn_eq, location, ← SchemaType.isBuiltIn_eq]
      · show extended.value.name.text = name.text
        rw [extension.name]
        exact named
    · refine ⟨?_, makes.name ▸ Name.beq_iff_text_eq.1 same, makes.isAsDefined⟩
      rw [SchemaType.isBuiltIn_eq, makes.location]
      exact isBuiltIn_eq_false_of_liesIn (lie _ (Definition.mem_typesAmong_iff.1 member)).itself
  directives := by
    obtain ⟨own, entries, foreign⟩ := builtUp.directives
    refine ⟨own ++ Definition.directivesAmong definitions, ?_, ?_⟩
    · rw [isMerge.directives, entries, List.append_assoc, List.map_append]
    · rw [List.forall_mem_append]
      refine ⟨foreign, fun directive member => ?_⟩
      rw [Node.isBuiltIn_eq]
      exact isBuiltIn_eq_false_of_liesIn
        (lie _ (Definition.mem_directivesAmong_iff.1 member)).itself

/-- **Schemas that texts lead to are built up from what is built in.** -/
theorem Schema.ReachableByReading.isBuiltUp {schema : Schema}
    (reachable : schema.ReachableByReading) : schema.IsBuiltUp :=
  reachable.of_merge Schema.isBuiltUp_builtIn fun _ admits isMerge builtUp =>
    isMerge.isBuiltUp admits (Document.definitions_lieIn _ _ _) builtUp

/-! ## What is built in and what is not -/

namespace Schema.IsBuiltUp

variable {schema : Schema} (builtUp : schema.IsBuiltUp)
include builtUp

/-- Behind what is built in come a schema's own types. -/
theorem exists_ownTypes_eq : ∃ behind : List (Name × SchemaType),
    NameMap.labelled schema.types = NameMap.labelled Schema.builtIn.types ++
      behind.map (fun entry => (entry.1.text, entry.2)) ∧
    schema.ownTypes = behind.map (·.2) ∧
    ∀ entry ∈ behind, entry.2.name.text = entry.1.text ∧ entry.2.IsAsDefined := by
  obtain ⟨more, texts⟩ := builtUp.typeNames
  obtain ⟨behind, labelled, stored⟩ := NameMap.exists_entries_behind texts builtUp.kept
  have isOwn := fun entry member => builtUp.own
    (OrderedMap.get?_of_mem (stored entry member).1) (stored entry member).2
  refine ⟨behind, labelled, ?_, fun entry member => (isOwn entry member).2⟩
  rw [ownTypes, NameMap.values_eq_labelled, labelled, List.map_append,
    ← NameMap.values_eq_labelled, List.filter_append, List.filter_eq_nil_iff.2, List.nil_append,
    List.map_map, List.filter_eq_self.2]
  · rfl
  · rw [List.forall_mem_map]
    intro entry member
    rw [Function.comp_apply, (isOwn entry member).1]
    rfl
  · intro type member
    rw [Schema.isBuiltIn_builtIn.1 type member]
    exact Bool.false_ne_true

/-- **The types of a schema are those that are built in and then its own.** -/
theorem types_eq : NameMap.labelled schema.types =
    NameMap.labelled Schema.builtIn.types ++
      schema.ownTypes.map fun type => (type.name.text, type) := by
  obtain ⟨behind, labelled, own, named⟩ := builtUp.exists_ownTypes_eq
  rw [labelled, own, List.map_map]
  refine congrArg _ (List.map_congr_left fun entry member => ?_)
  rw [Function.comp_apply, (named entry member).1]

/-- A schema's own types are as they are defined. -/
theorem isAsDefined {type : SchemaType} (member : type ∈ schema.ownTypes) : type.IsAsDefined := by
  obtain ⟨behind, _, own, named⟩ := builtUp.exists_ownTypes_eq
  rw [own] at member
  obtain ⟨entry, listed, rfl⟩ := List.mem_map.1 member
  exact (named entry listed).2

/-- **The directives of a schema are those that are built in and then its own.** -/
theorem directives_eq : schema.directives.entries = Schema.builtIn.directives.entries ++
    schema.ownDirectives.map fun directive => (directive.value.name, directive) := by
  obtain ⟨own, entries, foreign⟩ := builtUp.directives
  have same : schema.ownDirectives = own := by
    rw [ownDirectives, OrderedMap.values, entries, List.map_append, ← OrderedMap.values,
      List.filter_append, List.filter_eq_nil_iff.2, List.nil_append, List.map_map,
      List.filter_eq_self.2]
    · exact List.map_id own
    · rw [List.forall_mem_map]
      intro directive member
      rw [Function.comp_apply, foreign directive member]
      rfl
    · intro directive member
      rw [Schema.isBuiltIn_builtIn.2 directive member]
      exact Bool.false_ne_true
  rw [same, entries]

end Schema.IsBuiltUp

end SchemaGraft
