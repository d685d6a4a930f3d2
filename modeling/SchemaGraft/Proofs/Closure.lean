import SchemaGraft.Proofs.BuiltIn
import SchemaGraft.Proofs.Extension.Outcome

/-!
# Closed schemas

A schema is closed if every name that it refers to has a type of a kind that can stand there
(`Schema.IsClosed`). While a schema is built, a reference is checked against the kind that is
promised for a name, maybe before its type is there. The promise is kept, and a type keeps its kind
when it is extended. So references that were good stay good, and new ones are good in the end:
every schema that extensions lead to is closed (`Schema.Reachable`).
-/

set_option autoImplicit false

namespace SchemaGraft

/-! ## Closed types and schemas -/

/-- The names that a field refers to have kinds that can stand there. -/
def Field.Finds (kinds : Name → Option TypeKind) (field : Field) : Prop :=
  FindsKind kinds .output field.type.value.innerName ∧
    ∀ argument ∈ field.arguments, FindsKind kinds .input argument.value.type.value.innerName

/-- The names that an object or interface type refers to have kinds that can stand there. -/
def ObjectLikeType.IsClosed (kinds : Name → Option TypeKind) (type : ObjectLikeType) : Prop :=
  (∀ interface ∈ type.interfaces.keys, FindsKind kinds .interface interface) ∧
    ∀ field ∈ type.fields.values, field.value.Finds kinds

/-- The names that a type refers to have kinds that can stand there. -/
def SchemaType.IsClosed (kinds : Name → Option TypeKind) : SchemaType → Prop
  | .object type | .interface type => type.value.IsClosed kinds
  | .union type => ∀ member ∈ type.value.members.keys, FindsKind kinds .object member
  | .inputObject type =>
    ∀ field ∈ type.value.fields.values, FindsKind kinds .input field.value.type.value.innerName
  | .scalar _ | .enum _ => True

/-- The names that a directive refers to have kinds that can stand there. -/
def DirectiveDefinition.IsClosed (kinds : Name → Option TypeKind)
    (directive : DirectiveDefinition) : Prop :=
  ∀ argument ∈ directive.arguments, FindsKind kinds .input argument.value.type.value.innerName

/-- Every name that a schema refers to has a type of a kind that can stand there. -/
structure Schema.IsClosed (schema : Schema) : Prop where
  types : ∀ type ∈ schema.types.values, type.IsClosed schema.kindOf?
  directives : ∀ directive ∈ schema.directives.values, directive.value.IsClosed schema.kindOf?

/-- The schemas that extensions lead to from what is built in. -/
inductive Schema.Reachable : Schema → Prop where
  | builtIn : Schema.builtIn.Reachable
  | extend {base : Schema} {run : ExtensionRun} {document : Document} {extended : ExtendedSchema}
      (reachable : base.Reachable)
      (succeeds : (base.extend run document).result = .ok extended) :
      (extended.over base).Reachable

/-- The schemas that texts without mistakes lead to from what is built in. -/
inductive Schema.ReachableByReading : Schema → Prop where
  | builtIn : Schema.builtIn.ReachableByReading
  | extend {base : Schema} {run : ExtensionRun} {limits : ReadingLimits} {serial : Nat}
      {source : SourceFile} {extended : ExtendedSchema} (reachable : base.ReachableByReading)
      (valid : (Document.parse limits (.document serial) source).errors = [])
      (succeeds :
        (base.extend run (Document.parse limits (.document serial) source).document).result =
          .ok extended) :
      (extended.over base).ReachableByReading

theorem Schema.ReachableByReading.reachable {schema : Schema}
    (reachable : schema.ReachableByReading) : schema.Reachable := by
  induction reachable with
  | builtIn => exact .builtIn
  | extend _ _ succeeds ih => exact ih.extend succeeds

/-- What a schema becomes by a text. -/
def Schema.afterReading (base : Schema) (source : SourceFile) : Option Schema :=
  (base.extend ⟨1, .none⟩ (Document.parse {} (.document 1) source).document).result.toOption.map
    fun extended => extended.over base

theorem Schema.ReachableByReading.of_afterReading {base schema : Schema} {source : SourceFile}
    (reachable : base.ReachableByReading)
    (valid : (Document.parse {} (.document 1) source).errors = [])
    (becomes : base.afterReading source = some schema) : schema.ReachableByReading := by
  obtain ⟨extended, given, rfl⟩ := Option.map_eq_some_iff.1 becomes
  exact .extend reachable valid (eq_ok_of_mem_toOption given)

/-! ## More kinds -/

section Kinds

variable {kinds more : Name → Option TypeKind}
  (keeps : ∀ {name kind}, kinds name = some kind → more name = some kind)
include keeps

theorem ObjectLikeType.IsClosed.mono {type : ObjectLikeType} (closed : type.IsClosed kinds) :
    type.IsClosed more := by
  obtain ⟨interfaces, fields⟩ := closed
  refine ⟨fun interface member => (interfaces interface member).mono keeps, ?_⟩
  intro field member
  obtain ⟨result, arguments⟩ := fields field member
  exact ⟨result.mono keeps, fun argument listed => (arguments argument listed).mono keeps⟩

/-- What a type refers to stays good when names only get kinds. -/
theorem SchemaType.IsClosed.mono {type : SchemaType} (closed : type.IsClosed kinds) :
    type.IsClosed more := by
  cases type with
  | scalar type => trivial
  | object type => exact ObjectLikeType.IsClosed.mono keeps closed
  | interface type => exact ObjectLikeType.IsClosed.mono keeps closed
  | union type => exact fun member listed => (closed member listed).mono keeps
  | enum type => trivial
  | inputObject type => exact fun field listed => (closed field listed).mono keeps

theorem DirectiveDefinition.IsClosed.mono {directive : DirectiveDefinition}
    (closed : directive.IsClosed kinds) : directive.IsClosed more :=
  fun argument member => (closed argument member).mono keeps

end Kinds

/-! ## What is added is closed -/

section Added

variable {run : ExtensionRun} {kinds : Name → Option TypeKind}

theorem finds_of_mem_fieldEntries {key type : Name} {definitions : List (Node FieldDefinition)}
    (met : ∀ definition ∈ definitions, definition.FieldFinds kinds) {field : Node Field}
    (member : field ∈ (fieldEntries run key type definitions).map (·.2)) :
    field.value.Finds kinds := by
  obtain ⟨entry, listed, rfl⟩ := List.mem_map.1 member
  obtain ⟨definition, written, rfl⟩ := List.mem_map.1 listed
  exact met definition written

/-- An extended type is closed if it was and its extensions are. -/
theorem IsExtensionOf.isClosed {key : Name} {base extended : Node ObjectLikeType}
    {clauses : List (Node ObjectExtension)}
    (extension : IsExtensionOf run key base clauses extended)
    (closed : base.value.IsClosed kinds)
    (met : ∀ clause ∈ clauses, ∀ reference ∈ clause.clauseReferences clause.value.name,
      reference.IsMet kinds) :
    extended.value.IsClosed kinds := by
  obtain ⟨interfaces, fields⟩ := closed
  constructor
  · intro interface member
    rw [extension.interfaces, List.mem_append, List.mem_flatMap] at member
    rcases member with member | ⟨clause, listed, member⟩
    · exact interfaces interface member
    · exact (forall_clauseReferences_iff.1 (met clause listed)).1 interface member
  · intro field member
    rw [OrderedMap.values, extension.fields, List.map_append, List.mem_append] at member
    rcases member with member | member
    · exact fields field member
    · refine finds_of_mem_fieldEntries ?_ member
      intro definition written
      obtain ⟨clause, listed, written⟩ := List.mem_flatMap.1 written
      exact (forall_clauseReferences_iff.1 (met clause listed)).2 definition written

theorem TypeDefinition.MakesObjectLike.isClosed {definition : Node ObjectLikeDefinition}
    {type : Node ObjectLikeType} (makes : TypeDefinition.MakesObjectLike run definition type)
    (met : ∀ reference ∈ definition.objectLikeReferences, reference.IsMet kinds) :
    type.value.IsClosed kinds := by
  obtain ⟨interfaces, fields⟩ := forall_objectLikeReferences_iff.1 met
  refine ⟨by rwa [makes.interfaces], ?_⟩
  intro field member
  rw [OrderedMap.values, makes.fields] at member
  exact finds_of_mem_fieldEntries fields member

/-- A new type is closed if its definition is. -/
theorem TypeDefinition.Makes.isClosed {definition : TypeDefinition} {type : SchemaType}
    (makes : definition.Makes run type)
    (met : ∀ reference ∈ definition.references, reference.IsMet kinds) : type.IsClosed kinds := by
  have members := makes.members
  cases definition <;> cases type <;> first | trivial | exact members.elim | skip
  case object definition type => exact MakesObjectLike.isClosed members met
  case interface definition type => exact MakesObjectLike.isClosed members met
  case union definition type =>
      intro member listed
      have keys : type.value.members.keys = _ := members
      rw [keys] at listed
      exact forall_unionReferences_iff.1 met member (Name.mem_of_mem_distinct listed)
  case inputObject definition type =>
      intro field listed
      have entries : type.value.fields.entries = _ := members
      rw [OrderedMap.values, entries, List.map_map] at listed
      obtain ⟨other, written, rfl⟩ := List.mem_map.1 listed
      exact forall_inputReference_iff.1 met other written

end Added

/-! ## Every step keeps a schema closed -/

section Merge

variable {run : ExtensionRun} {base merged : Schema} {definitions : List Definition}
  (admits : base.Admits definitions) (isMerge : Schema.IsMerge run base definitions merged)
include admits isMerge

theorem Schema.IsMerge.findsKind {expected : ExpectedKind} {name : Name}
    (finds : FindsKind base.kindOf? expected name) : FindsKind merged.kindOf? expected name :=
  finds.mono (isMerge.kindOf?_of_base admits)

/-- **A merge is closed if the base schema is.** -/
theorem Schema.IsMerge.isClosed (closed : base.IsClosed) : merged.IsClosed := by
  have keeps := @Schema.IsMerge.kindOf?_of_base _ _ _ _ isMerge admits
  have met : ∀ definition ∈ definitions, ∀ reference ∈ definition.references,
      reference.IsMet merged.kindOf? := by
    rw [isMerge.kindOf?_eq admits]
    exact admits.references
  have closed_of_base : ∀ {name type}, base.types.get? name = some type →
      type.IsClosed merged.kindOf? := by
    intro name type found
    obtain ⟨key, stored, _⟩ := (OrderedMap.get?_eq_some_iff _ _ _).1 found
    exact (closed.types type (List.mem_map_of_mem stored)).mono keeps
  constructor
  · intro type member
    obtain ⟨⟨name, _⟩, listed, rfl⟩ := List.mem_map.1 member
    obtain ⟨kept, _⟩ | ⟨object, extended, found, _, rfl, extension⟩ |
        ⟨definition, written, _, makes⟩ :=
      isMerge.type_cases admits (OrderedMap.get?_of_mem listed)
    · exact closed_of_base kept
    · refine IsExtensionOf.isClosed extension (closed_of_base found) ?_
      intro clause targeted
      exact met _ (Definition.mem_clausesAmong_iff.1 (Definition.mem_clausesFor_iff.1 targeted).1)
    · exact makes.isClosed (met _ (Definition.mem_typesAmong_iff.1 written))
  · intro directive member
    rw [OrderedMap.values, isMerge.directives, List.map_append, List.mem_append] at member
    rcases member with member | member
    · exact (closed.directives directive member).mono keeps
    · obtain ⟨entry, listed, rfl⟩ := List.mem_map.1 member
      obtain ⟨definition, written, rfl⟩ := List.mem_map.1 listed
      exact forall_inputReference_iff.1 (met _ (Definition.mem_directivesAmong_iff.1 written))

end Merge

theorem Schema.isClosed_empty : Schema.empty.IsClosed where
  types := fun _ member => absurd member List.not_mem_nil
  directives := fun _ member => absurd member List.not_mem_nil

/-- What the empty schema has and every merge keeps, the definitions of a document that can stand
alone have. -/
theorem Schema.ofDocument_of_merge {P : Schema → Prop} (empty : P .empty)
    (merge : ∀ {run : ExtensionRun} {base merged : Schema} {definitions : List Definition},
      base.Admits definitions → Schema.IsMerge run base definitions merged → P base → P merged)
    (document : Document) : P (Schema.ofDocument document) := by
  unfold Schema.ofDocument
  cases planned : ExtensionPlan.ofDefinitions .empty document.definitions with
  | error _ => exact empty
  | ok plan =>
      have carried := Schema.carryOut_spec ⟨0, .none⟩ (ExtensionPlan.isFor_of_ofDefinitions planned)
      simp only
      cases result : (Schema.carryOut ⟨0, .none⟩ .empty document plan).result with
      | error _ => exact empty
      | ok schema =>
          rw [result] at carried
          obtain ⟨admits, isMerge, _⟩ := carried
          exact merge admits isMerge empty

/-- **What the empty schema has and every merge keeps, all reachable schemas have.** -/
theorem Schema.Reachable.of_merge {P : Schema → Prop} (empty : P .empty)
    (merge : ∀ {run : ExtensionRun} {base merged : Schema} {definitions : List Definition},
      base.Admits definitions → Schema.IsMerge run base definitions merged → P base → P merged)
    {schema : Schema} (reachable : schema.Reachable) : P schema := by
  induction reachable with
  | builtIn => exact Schema.ofDocument_of_merge empty merge BuiltIn.document
  | extend _ succeeds kept =>
      obtain ⟨admits, isMerge⟩ := Schema.merged_of_extended succeeds
      exact merge admits isMerge kept

/-- **What the built-in schema has and every merge of a text without mistakes keeps, all schemas
have that such texts lead to.** -/
theorem Schema.ReachableByReading.of_merge {P : Schema → Prop} (builtIn : P .builtIn)
    (merge : ∀ {run : ExtensionRun} {base merged : Schema} {limits : ReadingLimits} {serial : Nat}
      {source : SourceFile}, (Document.parse limits (.document serial) source).errors = [] →
      base.Admits (Document.parse limits (.document serial) source).document.definitions →
      Schema.IsMerge run base (Document.parse limits (.document serial) source).document.definitions
        merged → P base → P merged)
    {schema : Schema} (reachable : schema.ReachableByReading) : P schema := by
  induction reachable with
  | builtIn => exact builtIn
  | extend _ valid succeeds kept =>
      obtain ⟨admits, isMerge⟩ := Schema.merged_of_extended succeeds
      exact merge valid admits isMerge kept

/-- What a document defines that can stand alone is closed. -/
theorem Schema.isClosed_ofDocument (document : Document) :
    (Schema.ofDocument document).IsClosed :=
  Schema.ofDocument_of_merge Schema.isClosed_empty
    (fun admits isMerge closed => isMerge.isClosed admits closed) document

/-! ## Every reachable schema is closed -/

/-- What an extension keeps: the kinds of the types that there were, whatever was referred to, and
the root operations. -/
structure Schema.IsKeptBy (base extended : Schema) : Prop where
  kinds : ∀ {name kind}, base.kindOf? name = some kind → extended.kindOf? name = some kind
  references : ∀ {expected name}, FindsKind base.kindOf? expected name →
    FindsKind extended.kindOf? expected name
  roots : extended.roots = base.roots
  rootObjects : ∀ {operation name}, base.roots.get? operation = some name →
    FindsKind base.kindOf? .object name →
    extended.roots.get? operation = some name ∧ FindsKind extended.kindOf? .object name

/-- **Every reachable schema is closed**, and every extension of any schema keeps the kinds of its
types and its root operations. -/
theorem Schema.isClosed_of_reachable :
    (∀ {schema : Schema}, schema.Reachable → schema.IsClosed) ∧
      ∀ {run : ExtensionRun} {base : Schema} {document : Document} {extended : ExtendedSchema},
        (base.extend run document).result = .ok extended → base.IsKeptBy (extended.over base) := by
  constructor
  · intro schema reachable
    induction reachable with
    | builtIn => exact Schema.isClosed_ofDocument BuiltIn.document
    | @extend base run document extended _ succeeds closed =>
        have spec := Schema.extend_spec run base document
        rw [succeeds] at spec
        obtain ⟨admits, isMerge, _⟩ := spec
        exact isMerge.isClosed admits closed
  · intro run base document extended succeeds
    have spec := Schema.extend_spec run base document
    rw [succeeds] at spec
    obtain ⟨admits, isMerge, _⟩ := spec
    exact
      { kinds := isMerge.kindOf?_of_base admits
        references := isMerge.findsKind admits
        roots := isMerge.roots
        rootObjects := by
          intro operation name root finds
          exact ⟨by rw [isMerge.roots, root], isMerge.findsKind admits finds⟩ }

/-- A text with references of all kinds, some of them to types that are defined behind them. -/
def gardenSource : SourceFile :=
  ⟨"garden.graphql", "interface Plant type Tree implements Plant { crop(at: Spot): [Crop!] } " ++
    "union Crop = Tree input Spot { next: Spot } directive @tint(by: Spot) on OBJECT"⟩

theorem Schema.reachableByReading_garden {garden : Schema}
    (becomes : garden ∈ Schema.builtIn.afterReading gardenSource) : garden.ReachableByReading := by
  refine .of_afterReading .builtIn ?_ becomes
  rw [Document.parse_literal _ _ gardenSource (append_eq_ofList rfl rfl)]
  decide +kernel

/-- A text that gives a type of the garden another interface and another field. -/
def orchardSource : SourceFile :=
  ⟨"orchard.graphql", "interface Tall { size: Int } extend type Tree implements Tall { size: Int }"⟩

/-- The garden is closed, and the orchard keeps its kinds and a root type. -/
theorem Schema.isClosed_of_reachable_garden :
    ∃ garden ∈ Schema.builtIn.afterReading gardenSource,
      garden.outline.1.drop 5 =
        [("Plant", .interface), ("Tree", .object), ("Crop", .union), ("Spot", .inputObject)] ∧
      garden.IsClosed ∧
      let rooted := { garden with roots := ⟨some (.plain "Tree"), none, none⟩ }
      ∃ extended, (rooted.extend ⟨2, .none⟩
          (Document.parse {} (.document 2) orchardSource).document).result = .ok extended ∧
        rooted.IsKeptBy (extended.over rooted) := by
  have evaluated : ∃ garden ∈ Schema.builtIn.afterReading gardenSource,
      garden.outline.1.drop 5 =
        [("Plant", .interface), ("Tree", .object), ("Crop", .union), ("Spot", .inputObject)] ∧
      let rooted := { garden with roots := ⟨some (.plain "Tree"), none, none⟩ }
      (rooted.extend ⟨2, .none⟩
        (Document.parse {} (.document 2) orchardSource).document).result.toOption.isSome := by
    rw [← BuiltIn.schema_eq, Schema.afterReading,
      Document.parse_literal _ _ gardenSource (append_eq_ofList rfl rfl),
      Document.parse_literal _ _ orchardSource rfl]
    decide +kernel
  obtain ⟨garden, becomes, outline, admitted⟩ := evaluated
  have reachable := (Schema.reachableByReading_garden becomes).reachable
  obtain ⟨extended, given⟩ := Option.isSome_iff_exists.1 admitted
  have succeeds := eq_ok_of_mem_toOption given
  exact ⟨garden, becomes, outline, Schema.isClosed_of_reachable.1 reachable, extended,
    succeeds, Schema.isClosed_of_reachable.2 succeeds⟩

end SchemaGraft
