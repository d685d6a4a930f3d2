import SchemaGraft.Proofs.Equality.Maps
import SchemaGraft.Schema.Basic

/-!
# Equality of schemas

What counts when schemas are compared is their essence: what each name leads to, without the places
where anything was written, the order in which names were added, and the identity of nodes. The
order of lists counts, and so does which handle the resolver of a field is.

**Main result** (`Memory.equality_sound`). Where nodes that are one have one value, two schemas are
equal if and only if they have the same essence, the shortcut of nodes that are one changes no
answer for any kind of node, equality is an equivalence relation, and equal definitions have the
same fingerprint.
-/

set_option autoImplicit false

namespace SchemaGraft

/-! ## Essences -/

/-- The essence of a field. -/
structure FieldEssence where
  /-- What the field is defined as, without places. -/
  definition : FieldDefinition
  deprecation : Option Deprecation
  /-- The handle of the resolver. -/
  resolver : Option Nat

/-- The essence of a value of an enum type. -/
structure EnumValueEssence where
  /-- What the value is defined as, without places. -/
  definition : EnumValueDefinition
  deprecation : Option Deprecation
  internalValue : JsonEssence

/-- The essence of an object or interface type. -/
structure ObjectLikeEssence where
  description : Option String
  name : String
  /-- Which interfaces are implemented. -/
  interfaces : String → Bool
  directives : Directives
  fields : String → Option FieldEssence

/-- The essence of a union type. -/
structure UnionEssence where
  description : Option String
  name : String
  directives : Directives
  /-- Which types are members. -/
  members : String → Bool

/-- The essence of an enum type. -/
structure EnumEssence where
  description : Option String
  name : String
  directives : Directives
  values : String → Option EnumValueEssence

/-- The essence of an input object type. -/
structure InputObjectEssence where
  description : Option String
  name : String
  directives : Directives
  fields : String → Option InputValueDefinition

/-- The essence of a type. -/
inductive TypeEssence where
  | scalar (type : ScalarDefinition)
  | object (type : ObjectLikeEssence)
  | interface (type : ObjectLikeEssence)
  | union (type : UnionEssence)
  | enum (type : EnumEssence)
  | inputObject (type : InputObjectEssence)

/-- The essence of a schema. -/
structure SchemaEssence where
  directives : String → Option DirectiveDefinition
  types : String → Option TypeEssence
  roots : OperationType → Option String

def Field.essence (field : Field) : FieldEssence where
  definition := FieldDefinition.bare
    ⟨field.description, field.name, field.arguments, field.type, field.directives⟩
  deprecation := field.deprecation
  resolver := field.resolver.map (·.handle)

def EnumValue.essence (value : EnumValue) : EnumValueEssence where
  definition := EnumValueDefinition.bare ⟨value.description, value.name, value.directives⟩
  deprecation := value.deprecation
  internalValue := value.internalValue.essence

def ObjectLikeType.essence (type : ObjectLikeType) : ObjectLikeEssence where
  description := type.description
  name := type.name.text
  interfaces := type.interfaces.essence
  directives := Directives.bare type.directives
  fields := NameMap.essence (fun field => field.value.essence) type.fields

def UnionType.essence (type : UnionType) : UnionEssence where
  description := type.description
  name := type.name.text
  directives := Directives.bare type.directives
  members := type.members.essence

def EnumType.essence (type : EnumType) : EnumEssence where
  description := type.description
  name := type.name.text
  directives := Directives.bare type.directives
  values := NameMap.essence (fun value => value.value.essence) type.values

def InputObjectType.essence (type : InputObjectType) : InputObjectEssence where
  description := type.description
  name := type.name.text
  directives := Directives.bare type.directives
  fields := NameMap.essence (fun field => field.value.bare) type.fields

def SchemaType.essence : SchemaType → TypeEssence
  | scalar type => .scalar type.value.bare
  | object type => .object type.value.essence
  | interface type => .interface type.value.essence
  | union type => .union type.value.essence
  | enum type => .enum type.value.essence
  | inputObject type => .inputObject type.value.essence

/-- The names of the types of the root operations. -/
def RootOperations.essence (roots : RootOperations) : OperationType → Option String :=
  fun operation => (roots.get? operation).map (·.text)

/-- What counts when a schema is compared. -/
def Schema.essence (schema : Schema) : SchemaEssence where
  directives := NameMap.essence (fun definition => definition.value.bare) schema.directives
  types := NameMap.essence SchemaType.essence schema.types
  roots := schema.roots.essence

/-! ## Schemas in a memory -/

structure Field.IsIn (memory : Memory) (field : Field) : Prop where
  arguments : ∀ argument ∈ field.arguments, argument.IsIn memory InputValueDefinition.IsIn
  type : field.type.IsIn memory TypeReference.IsIn
  directives : Directives.IsIn memory field.directives

/-- What stands for the value in an executor is a JSON value as memories hold them: no object has
two fields of one name. -/
structure EnumValue.IsIn (memory : Memory) (value : EnumValue) : Prop where
  directives : Directives.IsIn memory value.directives
  internalValue : value.internalValue.IsProper

structure ObjectLikeType.IsIn (memory : Memory) (type : ObjectLikeType) : Prop where
  directives : Directives.IsIn memory type.directives
  fields : ∀ field ∈ OrderedMap.values type.fields, field.IsIn memory Field.IsIn

def UnionType.IsIn (memory : Memory) (type : UnionType) : Prop :=
  Directives.IsIn memory type.directives

structure EnumType.IsIn (memory : Memory) (type : EnumType) : Prop where
  directives : Directives.IsIn memory type.directives
  values : ∀ value ∈ OrderedMap.values type.values, value.IsIn memory EnumValue.IsIn

structure InputObjectType.IsIn (memory : Memory) (type : InputObjectType) : Prop where
  directives : Directives.IsIn memory type.directives
  fields : ∀ field ∈ OrderedMap.values type.fields, field.IsIn memory InputValueDefinition.IsIn

def SchemaType.IsIn (memory : Memory) : SchemaType → Prop
  | scalar type => type.IsIn memory ScalarDefinition.IsIn
  | object type | interface type => type.IsIn memory ObjectLikeType.IsIn
  | union type => type.IsIn memory UnionType.IsIn
  | enum type => type.IsIn memory EnumType.IsIn
  | inputObject type => type.IsIn memory InputObjectType.IsIn

/-- The nodes of a schema are in a memory. -/
structure Schema.IsIn (memory : Memory) (schema : Schema) : Prop where
  directives : ∀ definition ∈ OrderedMap.values schema.directives,
    definition.IsIn memory DirectiveDefinition.IsIn
  types : ∀ type ∈ OrderedMap.values schema.types, type.IsIn memory

/-! ## Equality in a memory -/

section Types

variable (memory : Memory)

theorem Resolver.compares : memory.ComparesBy (fun _ _ => True) Resolver.handle := by
  constructor
  intro left right _ _
  show (left.handle == right.handle) = true ↔ _
  exact beq_iff_eq

theorem Field.compares : memory.ComparesBy Field.IsIn Field.essence := by
  constructor
  intro left right left_in right_in
  simp only [Field.beq_eq, Bool.and_eq_true, beq_iff_eq, Name.beq_iff_bare, essence,
    FieldEssence.mk.injEq, FieldDefinition.bare, FieldDefinition.mk.injEq, and_assoc,
    (InputValueDefinition.compares memory).bareNode.list.iff left_in.arguments right_in.arguments,
    (TypeReference.compares memory).bareNode.iff left_in.type right_in.type,
    (Directives.compares memory).iff left_in.directives right_in.directives,
    (Resolver.compares memory).option.iff (fun _ _ => trivial) (fun _ _ => trivial)]

theorem EnumValue.compares : memory.ComparesBy EnumValue.IsIn EnumValue.essence := by
  constructor
  intro left right left_in right_in
  simp only [EnumValue.beq_eq, Bool.and_eq_true, beq_iff_eq, Name.beq_iff_bare, essence,
    EnumValueEssence.mk.injEq, EnumValueDefinition.bare, EnumValueDefinition.mk.injEq, and_assoc,
    (Directives.compares memory).iff left_in.directives right_in.directives,
    (Json.compares memory).iff left_in.internalValue right_in.internalValue]

theorem ObjectLikeType.compares :
    memory.ComparesBy ObjectLikeType.IsIn ObjectLikeType.essence := by
  constructor
  intro left right left_in right_in
  simp only [ObjectLikeType.beq_eq, Bool.and_eq_true, beq_iff_eq, Name.beq_iff_text_eq, essence,
    ObjectLikeEssence.mk.injEq, (NameSet.compares memory).iff trivial trivial,
    (Directives.compares memory).iff left_in.directives right_in.directives,
    (Field.compares memory).node.nameMap.iff left_in.fields right_in.fields]

theorem UnionType.compares : memory.ComparesBy UnionType.IsIn UnionType.essence := by
  constructor
  intro left right left_in right_in
  simp only [UnionType.beq_eq, Bool.and_eq_true, beq_iff_eq, Name.beq_iff_text_eq, essence,
    UnionEssence.mk.injEq, (NameSet.compares memory).iff trivial trivial,
    (Directives.compares memory).iff left_in right_in]

theorem EnumType.compares : memory.ComparesBy EnumType.IsIn EnumType.essence := by
  constructor
  intro left right left_in right_in
  simp only [EnumType.beq_eq, Bool.and_eq_true, beq_iff_eq, Name.beq_iff_text_eq, essence,
    EnumEssence.mk.injEq, (Directives.compares memory).iff left_in.directives right_in.directives,
    (EnumValue.compares memory).node.nameMap.iff left_in.values right_in.values]

theorem InputObjectType.compares :
    memory.ComparesBy InputObjectType.IsIn InputObjectType.essence := by
  constructor
  intro left right left_in right_in
  simp only [InputObjectType.beq_eq, Bool.and_eq_true, beq_iff_eq, Name.beq_iff_text_eq, essence,
    InputObjectEssence.mk.injEq,
    (Directives.compares memory).iff left_in.directives right_in.directives,
    (InputValueDefinition.compares memory).node.nameMap.iff left_in.fields right_in.fields]

theorem SchemaType.compares : memory.ComparesBy SchemaType.IsIn SchemaType.essence := by
  constructor
  intro left right left_in right_in
  cases left <;> cases right <;> simp only [essence, reduceCtorEq, TypeEssence.scalar.injEq,
    TypeEssence.object.injEq, TypeEssence.interface.injEq, TypeEssence.union.injEq,
    TypeEssence.enum.injEq, TypeEssence.inputObject.injEq, iff_false]
  case scalar.scalar => exact (ScalarDefinition.compares memory).node.iff left_in right_in
  case object.object | interface.interface =>
      exact (ObjectLikeType.compares memory).node.iff left_in right_in
  case union.union => exact (UnionType.compares memory).node.iff left_in right_in
  case enum.enum => exact (EnumType.compares memory).node.iff left_in right_in
  case inputObject.inputObject => exact (InputObjectType.compares memory).node.iff left_in right_in
  all_goals exact Bool.false_ne_true

theorem RootOperations.compares : memory.ComparesBy (fun _ _ => True) RootOperations.essence := by
  constructor
  intro left right _ _
  have texts : memory.ComparesBy (fun _ _ => True) Name.text := ⟨fun _ _ => Name.beq_iff_text_eq⟩
  have named : ∀ left right : Option Name,
      (left == right) = true ↔ left.map (·.text) = right.map (·.text) := fun _ _ =>
    texts.option.iff (fun _ _ => trivial) (fun _ _ => trivial)
  have parts_eq : (left == right) = (left.query == right.query &&
      (left.mutation == right.mutation && left.subscription == right.subscription)) := rfl
  simp only [parts_eq, Bool.and_eq_true, named, essence, funext_iff]
  constructor
  · rintro ⟨query, mutation, subscription⟩ (_ | _ | _) <;> assumption
  · exact fun agree => ⟨agree .query, agree .mutation, agree .subscription⟩

/-- **Schemas are equal if and only if they have the same essence.** -/
theorem Schema.compares : memory.ComparesBy Schema.IsIn Schema.essence := by
  constructor
  intro left right left_in right_in
  have parts_eq : (left == right) = ((left.directives == right.directives &&
      left.types == right.types) && left.roots == right.roots) := rfl
  simp only [parts_eq, Bool.and_eq_true, and_assoc, essence, SchemaEssence.mk.injEq,
    (RootOperations.compares memory).iff trivial trivial,
    (DirectiveDefinition.compares memory).node.nameMap.iff left_in.directives right_in.directives,
    (SchemaType.compares memory).nameMap.iff left_in.types right_in.types]

end Types

/-! ## Sharing -/

/-- Comparing two nodes is comparing their values, for every kind of node that documents and schemas
are made of. -/
structure Memory.IgnoresAllSharing (memory : Memory) : Prop where
  values : memory.IgnoresSharing Value.IsIn
  typeReferences : memory.IgnoresSharing TypeReference.IsIn
  arguments : memory.IgnoresSharing Argument.IsIn
  directives : memory.IgnoresSharing Directive.IsIn
  inputValues : memory.IgnoresSharing InputValueDefinition.IsIn
  directiveDefinitions : memory.IgnoresSharing DirectiveDefinition.IsIn
  /-- Scalar types of schemas are their definitions. -/
  scalars : memory.IgnoresSharing ScalarDefinition.IsIn
  fields : memory.IgnoresSharing Field.IsIn
  enumValues : memory.IgnoresSharing EnumValue.IsIn
  objectLikes : memory.IgnoresSharing ObjectLikeType.IsIn
  unions : memory.IgnoresSharing UnionType.IsIn
  enums : memory.IgnoresSharing EnumType.IsIn
  inputObjects : memory.IgnoresSharing InputObjectType.IsIn
  fieldDefinitions : memory.IgnoresSharing FieldDefinition.IsIn
  enumValueDefinitions : memory.IgnoresSharing EnumValueDefinition.IsIn
  objectLikeDefinitions : memory.IgnoresSharing ObjectLikeDefinition.IsIn
  unionDefinitions : memory.IgnoresSharing UnionDefinition.IsIn
  enumDefinitions : memory.IgnoresSharing EnumDefinition.IsIn
  inputObjectDefinitions : memory.IgnoresSharing InputObjectDefinition.IsIn
  objectExtensions : memory.IgnoresSharing ObjectExtension.IsIn
  otherExtensions : memory.IgnoresSharing OtherExtension.IsIn
  unrelatedDefinitions : memory.IgnoresSharing UnrelatedDefinition.IsIn

theorem Memory.ignoresAllSharing (memory : Memory) : memory.IgnoresAllSharing where
  values := (Value.compares memory).ignoresSharing
  typeReferences := (TypeReference.compares memory).ignoresSharing
  arguments := (Argument.compares memory).ignoresSharing
  directives := (Directive.compares memory).ignoresSharing
  inputValues := (InputValueDefinition.compares memory).ignoresSharing
  directiveDefinitions := (DirectiveDefinition.compares memory).ignoresSharing
  scalars := (ScalarDefinition.compares memory).ignoresSharing
  fields := (Field.compares memory).ignoresSharing
  enumValues := (EnumValue.compares memory).ignoresSharing
  objectLikes := (ObjectLikeType.compares memory).ignoresSharing
  unions := (UnionType.compares memory).ignoresSharing
  enums := (EnumType.compares memory).ignoresSharing
  inputObjects := (InputObjectType.compares memory).ignoresSharing
  fieldDefinitions := (FieldDefinition.compares memory).ignoresSharing
  enumValueDefinitions := (EnumValueDefinition.compares memory).ignoresSharing
  objectLikeDefinitions := (ObjectLikeDefinition.compares memory).ignoresSharing
  unionDefinitions := (UnionDefinition.compares memory).ignoresSharing
  enumDefinitions := (EnumDefinition.compares memory).ignoresSharing
  inputObjectDefinitions := (InputObjectDefinition.compares memory).ignoresSharing
  objectExtensions := (ObjectExtension.compares memory).ignoresSharing
  otherExtensions := (OtherExtension.compares memory).ignoresSharing
  unrelatedDefinitions := (UnrelatedDefinition.compares memory).ignoresSharing

/-- The memory of nodes that all have identities of their own. -/
def Memory.ofNodes (nodes : List ((α : Type) × Node α)) (apart : (nodes.map (·.2.identity)).Nodup) :
    Memory where
  holds node := ⟨_, node⟩ ∈ nodes
  value_eq := by
    intro α left right left_held right_held same
    have identity : left.identity = right.identity := beq_iff_eq.1 same
    cases List.inj_on_of_nodup_map apart left_held right_held identity
    rfl

/-- **Equality in a memory is sound.** -/
theorem Memory.equality_sound (memory : Memory) :
    (∀ left right : Schema, left.IsIn memory → right.IsIn memory →
      ((left == right) = true ↔ left.essence = right.essence)) ∧
    memory.IgnoresAllSharing ∧
    Equivalence (fun left right : {schema : Schema // schema.IsIn memory} =>
      (left.val == right.val) = true) ∧
    ∀ left right : Definition, left.IsIn memory → right.IsIn memory → (left == right) = true →
      left.fingerprint = right.fingerprint :=
  ⟨fun _ _ left_in right_in => (Schema.compares memory).iff left_in right_in,
    memory.ignoresAllSharing, (Schema.compares memory).equivalence,
    fun _ _ => Definition.fingerprint_eq_of_beq⟩

/-- A field that two object types share. -/
def redField : Node Field :=
  ⟨.parsed ⟨.document 0, 1, 2⟩, none, ⟨none, .plain "red", [],
    ⟨.parsed ⟨.document 0, 3, 4⟩, none, .named (.plain "Int")⟩, [], none, some ⟨7, "red"⟩⟩⟩

/-- The object type of the field, made by a run. -/
def paintType (run : Nat) (interfaces : List String) : Node ObjectLikeType :=
  ⟨.built run (.type "Paint"), some ⟨.document run, 0, 9⟩, ⟨none, .plain "Paint",
    NameSet.ofList (interfaces.map .plain), [], OrderedMap.empty.insert (.plain "red") redField⟩⟩

/-- A value of an enum type, made by a run. -/
def greyValue (run : Nat) (fields : List (String × Json)) : Node EnumValue :=
  ⟨.built run (.enumValue "Shade" "GREY"), none,
    ⟨none, .plain "GREY", [], none, .object fields⟩⟩

/-- The enum type of the value, made by a run. -/
def shadeType (run : Nat) (fields : List (String × Json)) : Node EnumType :=
  ⟨.built run (.type "Shade"), none, ⟨none, .plain "Shade", [],
    OrderedMap.empty.insert (.plain "GREY") (greyValue run fields)⟩⟩

/-- The schema of some types in their order. -/
def Schema.ofTypes (types : List SchemaType) : Schema :=
  ⟨OrderedMap.empty, OrderedMap.empty, OrderedMap.ofList (types.map fun type => (type.name, type)),
    .none⟩

/-- Two schemas that share a field and otherwise differ in their nodes, places, and in the order of
types, interfaces and JSON fields. -/
theorem Memory.equality_sound_paint :
    ∃ (memory : Memory) (left right : Schema), left.IsIn memory ∧ right.IsIn memory ∧
      NameMap.texts left.types = ["Paint", "Shade"] ∧
      NameMap.texts right.types = ["Shade", "Paint"] ∧
      (left == right) = true ∧ left.essence = right.essence := by
  let names := ["Oil", "Acrylic"]
  let dark : List (String × Json) := [("dark", .bool true), ("hue", .null)]
  let left := Schema.ofTypes [.object (paintType 1 names), .enum (shadeType 1 dark)]
  let right := Schema.ofTypes
    [.enum (shadeType 2 dark.reverse), .object (paintType 2 names.reverse)]
  let memory := Memory.ofNodes [⟨_, redField⟩, ⟨_, redField.value.type⟩, ⟨_, paintType 1 names⟩,
    ⟨_, paintType 2 names.reverse⟩, ⟨_, shadeType 1 dark⟩, ⟨_, shadeType 2 dark.reverse⟩,
    ⟨_, greyValue 1 dark⟩, ⟨_, greyValue 2 dark.reverse⟩] (by decide)
  have red : redField.IsIn memory Field.IsIn :=
    ⟨by simp [memory, Memory.ofNodes],
      ⟨List.forall_mem_nil _, ⟨by simp [memory, Memory.ofNodes], trivial⟩, List.forall_mem_nil _⟩⟩
  have paint : ∀ run interfaces, memory.holds (paintType run interfaces) →
      (paintType run interfaces).IsIn memory ObjectLikeType.IsIn := fun run interfaces held =>
    ⟨held, List.forall_mem_nil _, List.forall_mem_singleton.2 red⟩
  have shade : ∀ run fields, memory.holds (shadeType run fields) →
      memory.holds (greyValue run fields) → (Json.object fields).IsProper →
      (shadeType run fields).IsIn memory EnumType.IsIn := fun run fields held grey proper =>
    ⟨held, List.forall_mem_nil _,
      List.forall_mem_singleton.2 ⟨grey, List.forall_mem_nil _, proper⟩⟩
  have left_in : left.IsIn memory := by
    refine ⟨List.forall_mem_nil _, List.forall_mem_cons.2 ⟨paint 1 names ?_,
      List.forall_mem_singleton.2 (shade 1 dark ?_ ?_ ?_)⟩⟩
    all_goals simp [memory, Memory.ofNodes, Json.IsProper, Json.AreFieldsProper, dark]
  have right_in : right.IsIn memory := by
    refine ⟨List.forall_mem_nil _, List.forall_mem_cons.2 ⟨shade 2 dark.reverse ?_ ?_ ?_,
      List.forall_mem_singleton.2 (paint 2 names.reverse ?_)⟩⟩
    all_goals simp [memory, Memory.ofNodes, Json.IsProper, Json.AreFieldsProper, dark]
  have equal : (left == right) = true := by decide +kernel
  exact ⟨memory, left, right, left_in, right_in, rfl, rfl, equal,
    (memory.equality_sound.1 left right left_in right_in).1 equal⟩

end SchemaGraft
