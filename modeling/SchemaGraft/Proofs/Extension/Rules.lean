import SchemaGraft.Extension.Extend
import SchemaGraft.Proofs.OrderedMaps

/-!
# The rules of extension

Whether a document can extend a schema is a matter of rules about the document as a whole. None of
them speaks of an order in which definitions are looked at. `Schema.Admits` is the conjunction of
the rules.

**Names.** Whatever is added must have a name that is new among the names of its kind: types among
the types, directives among the directives, fields and interfaces among those of the type they are
added to (`AreFresh`).

**References.** Every place where the document refers to a type must find a type of a kind that can
stand there. What counts is the kind that a name has once the document is applied
(`Schema.kindWith?`), so definitions may refer to each other and to themselves.
-/

set_option autoImplicit false

namespace SchemaGraft

/-! ## New names -/

/-- Added names are new: no two are equal and none is there already. -/
structure AreFresh (existing added : List Name) : Prop where
  distinct : (added.map (·.text)).Nodup
  absent : ∀ name ∈ added, name.text ∉ existing.map (·.text)

theorem areFresh_nil (existing : List Name) : AreFresh existing [] :=
  ⟨List.nodup_nil, by simp⟩

/-- Where nothing is added there is nothing to ask about. -/
theorem areFresh_flatMap_of_ne_nil {α : Type} {existing : List Name} {items : List α}
    {names : α → List Name} (fresh : items ≠ [] → AreFresh existing (items.flatMap names)) :
    AreFresh existing (items.flatMap names) := by
  by_cases none : items = []
  · rw [none]
    exact areFresh_nil existing
  · exact fresh none

theorem areFresh_singleton_iff {existing : List Name} {name : Name} :
    AreFresh existing [name] ↔ name.text ∉ existing.map (·.text) :=
  ⟨fun fresh => fresh.absent name (by simp),
    fun absent => ⟨by simp, fun other member => List.mem_singleton.1 member ▸ absent⟩⟩

/-- Names are new together if the first ones are, and the others after the first ones. -/
theorem areFresh_append_iff {existing first second : List Name} :
    AreFresh existing (first ++ second) ↔
      AreFresh existing first ∧ AreFresh (existing ++ first) second := by
  constructor
  · rintro ⟨distinct, absent⟩
    rw [List.map_append, List.nodup_append] at distinct
    obtain ⟨first_distinct, second_distinct, apart⟩ := distinct
    refine ⟨⟨first_distinct, fun name member => absent name (by simp [member])⟩,
      ⟨second_distinct, fun name member => ?_⟩⟩
    rw [List.map_append, List.mem_append, not_or]
    exact ⟨absent name (by simp [member]),
      fun earlier => apart _ earlier _ (List.mem_map_of_mem member) rfl⟩
  · rintro ⟨⟨first_distinct, first_absent⟩, ⟨second_distinct, second_absent⟩⟩
    constructor
    · rw [List.map_append, List.nodup_append]
      refine ⟨first_distinct, second_distinct, ?_⟩
      rintro _ earlier _ later rfl
      obtain ⟨name, member, rfl⟩ := List.mem_map.1 later
      exact second_absent name member (by simp_all)
    · intro name member
      rcases List.mem_append.1 member with member | member
      · exact first_absent name member
      · intro present
        exact second_absent name member (by rw [List.map_append]; simp_all)

/-- A name is not new if it is there or was added before. -/
theorem not_areFresh_of_split {existing before after : List Name} {name : Name}
    (present : name.text ∈ (existing ++ before).map (·.text)) :
    ¬ AreFresh existing (before ++ name :: after) := by
  intro fresh
  obtain ⟨_, fresh⟩ := areFresh_append_iff.1 fresh
  exact fresh.absent name (by simp) present

/-- Only the texts of the names that are there matter. -/
theorem AreFresh.congr {existing other added : List Name}
    (same : existing.map (·.text) = other.map (·.text)) (fresh : AreFresh existing added) :
    AreFresh other added :=
  ⟨fresh.distinct, fun name member => same ▸ fresh.absent name member⟩

theorem areFresh_keys_singleton_iff {ν : Type} {map : NameMap ν} {name : Name} :
    AreFresh map.keys [name] ↔ map.contains name = false := by
  rw [areFresh_singleton_iff, NameMap.contains_eq_false_iff, NameMap.texts]

/-! ## References -/

/-- A name has a kind that can stand where a kind is expected. -/
def FindsKind (kinds : Name → Option TypeKind) (expected : ExpectedKind) (name : Name) : Prop :=
  ∃ kind, kinds name = some kind ∧ expected.accepts kind = true

/-- Names that only get kinds find what they found. -/
theorem FindsKind.mono {kinds more : Name → Option TypeKind}
    (keeps : ∀ {name kind}, kinds name = some kind → more name = some kind)
    {expected : ExpectedKind} {name : Name} (finds : FindsKind kinds expected name) :
    FindsKind more expected name := by
  obtain ⟨kind, found, accepted⟩ := finds
  exact ⟨kind, keeps found, accepted⟩

/-- A place that refers to a type. -/
structure Reference where
  name : Name
  location : Option Location
  expected : ExpectedKind
  site : ReferenceSite

namespace Reference

/-- A reference is met where its name has a kind that can stand there. -/
def IsMet (kinds : Name → Option TypeKind) (reference : Reference) : Prop :=
  FindsKind kinds reference.expected reference.name

/-- What is wrong with a reference where names have the given kinds. -/
def rejection? (kinds : Name → Option TypeKind) (reference : Reference) : Option Rejection :=
  match kinds reference.name with
  | none => some (.unknownType reference.name reference.site reference.location)
  | some found =>
    if reference.expected.accepts found then none
    else some (.unexpectedKind reference.name reference.site reference.location found
      reference.expected)

theorem rejection?_eq_none_iff (kinds : Name → Option TypeKind) (reference : Reference) :
    reference.rejection? kinds = none ↔ reference.IsMet kinds := by
  unfold rejection? IsMet FindsKind
  cases kinds reference.name with
  | none => simp
  | some found => simp

theorem not_isMet_of_rejection? {kinds : Name → Option TypeKind} {reference : Reference}
    {rejection : Rejection} (wrong : reference.rejection? kinds = some rejection) :
    ¬ reference.IsMet kinds := by
  rw [← rejection?_eq_none_iff, wrong]
  simp

end Reference

/-- The reference of an argument or input field to its type. -/
def Node.inputReference (site : Name → ReferenceSite) (definition : Node InputValueDefinition) :
    Reference :=
  ⟨definition.value.type.value.innerName, definition.value.type.location, .input,
    site definition.value.name⟩

/-- The references of a field: to its type and to the types of its arguments. -/
def Node.fieldReferences (type : Name) (definition : Node FieldDefinition) : List Reference :=
  ⟨definition.value.type.value.innerName, definition.value.type.location, .output,
      .field type definition.value.name⟩ ::
    definition.value.arguments.map (Node.inputReference (.argument type definition.value.name))

/-- The references to the interfaces that a type is said to implement. -/
def interfaceReferences (type : Name) (location : Option Location) (interfaces : List Name) :
    List Reference :=
  interfaces.map fun interface =>
    ⟨interface, interface.location.or location, .interface, .implementedInterface type⟩

/-- The references of an extension of the type that is called `type`. -/
def Node.clauseReferences (type : Name) (clause : Node ObjectExtension) : List Reference :=
  interfaceReferences type clause.location clause.value.interfaces ++
    clause.value.fields.flatMap (Node.fieldReferences type)

/-- The references of an object or interface type. -/
def Node.objectLikeReferences (definition : Node ObjectLikeDefinition) : List Reference :=
  interfaceReferences definition.value.name definition.location definition.value.interfaces ++
    definition.value.fields.flatMap (Node.fieldReferences definition.value.name)

/-- The references of a union to its members. -/
def Node.unionReferences (definition : Node UnionDefinition) : List Reference :=
  definition.value.members.map fun member =>
    ⟨member, member.location.or definition.location, .object, .unionMember definition.value.name⟩

/-- The references of the definition of a type. -/
def TypeDefinition.references : TypeDefinition → List Reference
  | .object definition | .interface definition => definition.objectLikeReferences
  | .union definition => definition.unionReferences
  | .inputObject definition =>
    definition.value.fields.map (Node.inputReference (.inputField definition.value.name))
  | .scalar _ | .enum _ => []

/-- The references of a directive to the types of its arguments. -/
def Node.directiveReferences (definition : Node DirectiveDefinition) : List Reference :=
  definition.value.arguments.map
    (Node.inputReference (.directiveArgument definition.value.name))

/-- The references of a definition. -/
def Definition.references : Definition → List Reference
  | .directive definition => definition.directiveReferences
  | .type definition => definition.references
  | .objectExtension clause => clause.clauseReferences clause.value.name
  | .otherExtension _ | .unrelated _ => []

/-! ### What references need

What a reference needs is a kind for its name. The place where it stands does not matter for that,
nor does what the type is called that it belongs to. -/

section Needs

variable {kinds : Name → Option TypeKind} {type : Name}

/-- The names that the definition of a field refers to have kinds that can stand there. -/
def Node.FieldFinds (kinds : Name → Option TypeKind) (definition : Node FieldDefinition) : Prop :=
  FindsKind kinds .output definition.value.type.value.innerName ∧
    ∀ argument ∈ definition.value.arguments,
      FindsKind kinds .input argument.value.type.value.innerName

theorem forall_inputReference_iff {site : Name → ReferenceSite}
    {definitions : List (Node InputValueDefinition)} :
    (∀ reference ∈ definitions.map (Node.inputReference site), reference.IsMet kinds) ↔
      ∀ definition ∈ definitions, FindsKind kinds .input definition.value.type.value.innerName :=
  List.forall_mem_map

theorem forall_fieldReferences_iff {definition : Node FieldDefinition} :
    (∀ reference ∈ definition.fieldReferences type, reference.IsMet kinds) ↔
      definition.FieldFinds kinds := by
  rw [Node.fieldReferences, List.forall_mem_cons, forall_inputReference_iff]
  rfl

theorem forall_fieldsReferences_iff {definitions : List (Node FieldDefinition)} :
    (∀ reference ∈ definitions.flatMap (Node.fieldReferences type), reference.IsMet kinds) ↔
      ∀ definition ∈ definitions, definition.FieldFinds kinds := by
  simp only [List.mem_flatMap]
  constructor
  · intro met definition member
    rw [← forall_fieldReferences_iff]
    exact fun reference here => met reference ⟨definition, member, here⟩
  · rintro met reference ⟨definition, member, here⟩
    exact forall_fieldReferences_iff.2 (met definition member) reference here

theorem forall_interfaceReferences_iff {location : Option Location} {interfaces : List Name} :
    (∀ reference ∈ interfaceReferences type location interfaces, reference.IsMet kinds) ↔
      ∀ interface ∈ interfaces, FindsKind kinds .interface interface :=
  List.forall_mem_map

theorem forall_clauseReferences_iff {clause : Node ObjectExtension} :
    (∀ reference ∈ clause.clauseReferences type, reference.IsMet kinds) ↔
      (∀ interface ∈ clause.value.interfaces, FindsKind kinds .interface interface) ∧
        ∀ definition ∈ clause.value.fields, definition.FieldFinds kinds := by
  rw [Node.clauseReferences, List.forall_mem_append, forall_interfaceReferences_iff,
    forall_fieldsReferences_iff]

theorem forall_objectLikeReferences_iff {definition : Node ObjectLikeDefinition} :
    (∀ reference ∈ definition.objectLikeReferences, reference.IsMet kinds) ↔
      (∀ interface ∈ definition.value.interfaces, FindsKind kinds .interface interface) ∧
        ∀ field ∈ definition.value.fields, field.FieldFinds kinds := by
  rw [Node.objectLikeReferences, List.forall_mem_append, forall_interfaceReferences_iff,
    forall_fieldsReferences_iff]

theorem forall_unionReferences_iff {definition : Node UnionDefinition} :
    (∀ reference ∈ definition.unionReferences, reference.IsMet kinds) ↔
      ∀ member ∈ definition.value.members, FindsKind kinds .object member :=
  List.forall_mem_map

end Needs

/-! ## What a document adds -/

/-- A name with the place that a rejection of it shows. -/
structure Mention where
  name : Name
  location : Option Location

/-- The interfaces that are listed at a place. -/
def interfaceMentions (location : Option Location) (interfaces : List Name) : List Mention :=
  interfaces.map fun interface => ⟨interface, interface.location.or location⟩

/-- The fields that are defined in a list. -/
def fieldMentions (fields : List (Node FieldDefinition)) : List Mention :=
  fields.map fun field => ⟨field.value.name, field.location⟩

/-- The members that entries of a map hold. -/
def memberMentions {α : Type} (entries : List (Name × Node α)) : List Mention :=
  entries.map fun entry => ⟨entry.1, entry.2.location⟩

namespace TypeDefinition

/-- The interfaces that a definition lists. -/
def interfaces : TypeDefinition → List Mention
  | .object definition | .interface definition =>
    interfaceMentions definition.location definition.value.interfaces
  | .scalar _ | .union _ | .enum _ | .inputObject _ => []

/-- The fields or values that a definition lists. -/
def members : TypeDefinition → List Mention
  | .object definition | .interface definition => fieldMentions definition.value.fields
  | .enum definition => definition.value.values.map fun value => ⟨value.value.name, value.location⟩
  | .inputObject definition =>
    definition.value.fields.map fun field => ⟨field.value.name, field.location⟩
  | .scalar _ | .union _ => []

end TypeDefinition

namespace Definition

/-- The definitions of types among definitions. -/
def typesAmong (definitions : List Definition) : List TypeDefinition :=
  definitions.filterMap fun
    | .type definition => some definition
    | _ => none

/-- The definitions of directives among definitions. -/
def directivesAmong (definitions : List Definition) : List (Node DirectiveDefinition) :=
  definitions.filterMap fun
    | .directive definition => some definition
    | _ => none

/-- The extensions of object types among definitions. -/
def clausesAmong (definitions : List Definition) : List (Node ObjectExtension) :=
  definitions.filterMap fun
    | .objectExtension clause => some clause
    | _ => none

/-- The extensions of one object type among definitions. -/
def clausesFor (definitions : List Definition) (name : Name) : List (Node ObjectExtension) :=
  (clausesAmong definitions).filter fun clause => clause.value.name == name

end Definition

/-! ### Definitions one after the other -/

namespace Definition

variable (first second : List Definition) (name : Name)

@[simp]
theorem typesAmong_append :
    typesAmong (first ++ second) = typesAmong first ++ typesAmong second :=
  List.filterMap_append

@[simp]
theorem directivesAmong_append :
    directivesAmong (first ++ second) = directivesAmong first ++ directivesAmong second :=
  List.filterMap_append

@[simp]
theorem clausesAmong_append :
    clausesAmong (first ++ second) = clausesAmong first ++ clausesAmong second :=
  List.filterMap_append

@[simp]
theorem clausesFor_append :
    clausesFor (first ++ second) name = clausesFor first name ++ clausesFor second name := by
  simp only [clausesFor, clausesAmong_append, List.filter_append]

/-- Definitions without extensions extend nothing. -/
theorem clausesFor_append_of_none {second : List Definition} (none : clausesAmong second = []) :
    clausesFor (first ++ second) name = clausesFor first name := by
  rw [clausesFor_append, clausesFor, clausesFor, none, List.filter_nil, List.append_nil]

theorem clausesFor_congr {name other : Name} (same : (name == other) = true)
    (definitions : List Definition) :
    clausesFor definitions name = clausesFor definitions other := by
  have texts := Name.beq_iff_text_eq.1 same
  unfold clausesFor
  congr 1
  funext clause
  rw [Bool.eq_iff_iff, Name.beq_iff_text_eq, Name.beq_iff_text_eq, texts]

theorem mem_clausesFor_iff {definitions : List Definition} {name : Name}
    {clause : Node ObjectExtension} :
    clause ∈ clausesFor definitions name ↔
      clause ∈ clausesAmong definitions ∧ (clause.value.name == name) = true :=
  List.mem_filter

/-- What one constructor has made is picked out of definitions as it is. -/
theorem mem_filterMap_iff {α : Type} {make : α → Definition} {pick? : Definition → Option α}
    (picks : ∀ definition item, pick? definition = some item ↔ definition = make item)
    {definitions : List Definition} {item : α} :
    item ∈ definitions.filterMap pick? ↔ make item ∈ definitions := by
  simp only [List.mem_filterMap, picks, exists_eq_right]

theorem mem_typesAmong_iff {definitions : List Definition} {type : TypeDefinition} :
    type ∈ typesAmong definitions ↔ .type type ∈ definitions :=
  mem_filterMap_iff fun definition _ => by cases definition <;> simp

theorem mem_directivesAmong_iff {definitions : List Definition}
    {directive : Node DirectiveDefinition} :
    directive ∈ directivesAmong definitions ↔ .directive directive ∈ definitions :=
  mem_filterMap_iff fun definition _ => by cases definition <;> simp

theorem mem_clausesAmong_iff {definitions : List Definition} {clause : Node ObjectExtension} :
    clause ∈ clausesAmong definitions ↔ .objectExtension clause ∈ definitions :=
  mem_filterMap_iff fun definition _ => by cases definition <;> simp

end Definition

/-! ## The rules -/

/-- The kind of the type that a name has once definitions are added to a schema. -/
def Schema.kindWith? (base : Schema) (definitions : List Definition) (name : Name) :
    Option TypeKind :=
  ((base.types.get? name).map (·.kind)).or
    (((Definition.typesAmong definitions).find? (·.name == name)).map (·.kind))

/-- **The rules of extension.** -/
structure Schema.Admits (base : Schema) (definitions : List Definition) : Prop where
  /-- Only the word for object types extends a type. -/
  keywords : ∀ extension, .otherExtension extension ∉ definitions
  /-- What is extended is an object type of the schema. -/
  targets : ∀ clause ∈ Definition.clausesAmong definitions,
    ∃ type, base.types.get? clause.value.name = some (.object type)
  /-- Types have new names. -/
  types : AreFresh base.types.keys ((Definition.typesAmong definitions).map (·.name))
  /-- Directives have new names. -/
  directives : AreFresh base.directives.keys
    ((Definition.directivesAmong definitions).map (·.value.name))
  /-- Fields that are added to a type have new names. -/
  extensionFields : ∀ {name type}, base.types.get? name = some (.object type) →
    AreFresh type.value.fields.keys
      ((Definition.clausesFor definitions name).flatMap fun clause =>
        clause.value.fields.map (·.value.name))
  /-- Interfaces that are added to a type are new to it. -/
  extensionInterfaces : ∀ {name type}, base.types.get? name = some (.object type) →
    AreFresh type.value.interfaces.keys
      ((Definition.clausesFor definitions name).flatMap (·.value.interfaces))
  /-- A new type has no field and no value twice. -/
  members : ∀ definition ∈ Definition.typesAmong definitions,
    AreFresh [] (definition.members.map (·.name))
  /-- A new type lists no interface twice. -/
  interfaces : ∀ definition ∈ Definition.typesAmong definitions,
    AreFresh [] (definition.interfaces.map (·.name))
  /-- Every reference finds a type of a kind that can stand there. -/
  references : ∀ definition ∈ definitions, ∀ reference ∈ definition.references,
    reference.IsMet (base.kindWith? definitions)

/-- The rules that can be told from the names of definitions alone, before anything is built. -/
structure Schema.AdmitsNames (base : Schema) (definitions : List Definition) : Prop where
  keywords : ∀ extension, .otherExtension extension ∉ definitions
  targets : ∀ clause ∈ Definition.clausesAmong definitions,
    ∃ type, base.types.get? clause.value.name = some (.object type)
  types : AreFresh base.types.keys ((Definition.typesAmong definitions).map (·.name))

theorem Schema.Admits.names {base : Schema} {definitions : List Definition}
    (admits : base.Admits definitions) : base.AdmitsNames definitions :=
  ⟨admits.keywords, admits.targets, admits.types⟩

end SchemaGraft
