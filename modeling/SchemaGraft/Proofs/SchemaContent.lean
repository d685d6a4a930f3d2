import SchemaGraft.Proofs.OrderedMaps
import SchemaGraft.Schema.Basic

/-!
# What a schema holds

Two runs that build the same schema mark its nodes differently, each with its own number. The
content of a schema is all that it holds, in order, without these marks and without the files that
it was read from (`Schema.content`). A key of the types counts by its text, for where it was first
written says nothing about the type.

Schemas are compared with `==`, which looks through the marks too but does not see the order of the
members of a map. Comparing a schema with itself would be enough to know that equal contents are
equal, were it not for the values that stand for enum values inside an executor: `==` on these is
that of JSON values, which is not reflexive where an object has two fields of one name. So what is
shown here is that maps with equal contents are equal if their values equal themselves
(`NameMap.beq_of_contents`).
-/

set_option autoImplicit false

namespace SchemaGraft

/-! ## What equality compares

Equality of nodes has a shortcut for a node and itself. Everything else is equal part by part. -/

theorem Node.beq_eq {α : Type} [BEq α] (left right : Node α) :
    (left == right) = (left.identity == right.identity || left.value == right.value) := rfl

theorem Argument.beq_eq (left right : Argument) :
    (left == right) = (left.name == right.name && left.value == right.value) := rfl

theorem Directive.beq_eq (left right : Directive) :
    (left == right) = (left.name == right.name && left.arguments == right.arguments) := rfl

theorem InputValueDefinition.beq_eq (left right : InputValueDefinition) : (left == right) =
    (left.description == right.description && (left.name == right.name &&
      (left.type == right.type && (left.default == right.default &&
        left.directives == right.directives)))) := rfl

theorem DirectiveDefinition.beq_eq (left right : DirectiveDefinition) : (left == right) =
    (left.description == right.description && (left.name == right.name &&
      (left.arguments == right.arguments && (left.repeatable == right.repeatable &&
        left.locations == right.locations)))) := rfl

theorem ScalarDefinition.beq_eq (left right : ScalarDefinition) : (left == right) =
    (left.description == right.description && (left.name == right.name &&
      left.directives == right.directives)) := rfl

theorem Field.beq_eq (left right : Field) : (left == right) =
    (left.description == right.description && (left.name == right.name &&
      (left.arguments == right.arguments && (left.type == right.type &&
        (left.directives == right.directives && (left.deprecation == right.deprecation &&
          left.resolver == right.resolver)))))) := rfl

theorem EnumValue.beq_eq (left right : EnumValue) : (left == right) =
    (left.description == right.description && (left.name == right.name &&
      (left.directives == right.directives && (left.deprecation == right.deprecation &&
        left.internalValue == right.internalValue)))) := rfl

theorem ObjectLikeType.beq_eq (left right : ObjectLikeType) : (left == right) =
    (left.description == right.description && (left.name == right.name &&
      (left.interfaces == right.interfaces && (left.directives == right.directives &&
        left.fields == right.fields)))) := rfl

theorem UnionType.beq_eq (left right : UnionType) : (left == right) =
    (left.description == right.description && (left.name == right.name &&
      (left.directives == right.directives && left.members == right.members))) := rfl

theorem EnumType.beq_eq (left right : EnumType) : (left == right) =
    (left.description == right.description && (left.name == right.name &&
      (left.directives == right.directives && left.values == right.values))) := rfl

theorem InputObjectType.beq_eq (left right : InputObjectType) : (left == right) =
    (left.description == right.description && (left.name == right.name &&
      (left.directives == right.directives && left.fields == right.fields))) := rfl

/-! ## Comparing a thing with itself -/

instance {α : Type} [BEq α] : ReflBEq (Node α) where
  rfl {node} := by rw [Node.beq_eq, BEq.rfl, Bool.true_or]

instance {ν : Type} [BEq ν] [ReflBEq ν] : ReflBEq (NameMap ν) where
  rfl := OrderedMap.same_of_agree rfl fun entry member =>
    ⟨entry.2, OrderedMap.get?_of_mem member, BEq.rfl⟩

instance : ReflBEq Resolver where
  rfl {resolver} := by
    show (resolver.handle == resolver.handle) = true
    exact beq_self_eq_true _

/-- Texts equal themselves as JSON values, unlike objects with two fields of one name. -/
theorem Json.string_beq_self (text : String) : (Json.string text == Json.string text) = true := by
  show Json.same _ _ = true
  rw [Json.same]
  exact BEq.rfl

deriving instance ReflBEq for Field
deriving instance ReflBEq for ScalarDefinition
deriving instance ReflBEq for ObjectLikeType
deriving instance ReflBEq for UnionType
deriving instance ReflBEq for EnumType
deriving instance ReflBEq for InputObjectType
deriving instance ReflBEq for SchemaType
deriving instance ReflBEq for RootOperations

/-! ## Members -/

/-- What a map of nodes holds, in order. -/
def NameMap.contents {α : Type} (map : NameMap (Node α)) : List (Name × Option Location × α) :=
  map.entries.map fun entry => (entry.1, entry.2.location, entry.2.value)

/-- Maps with the same contents in any order are equal if their values equal themselves. -/
theorem NameMap.beq_of_perm {α : Type} [BEq α] {left right : NameMap (Node α)}
    (same : (NameMap.contents left).Perm (NameMap.contents right))
    (equal : ∀ entry ∈ left.entries, (entry.2.value == entry.2.value) = true) :
    (left == right) = true := by
  refine OrderedMap.same_of_agree ?_ ?_
  · have lengths := same.length_eq
    rwa [contents, contents, List.length_map, List.length_map] at lengths
  · intro entry member
    have listed : (entry.1, entry.2.location, entry.2.value) ∈ NameMap.contents right := by
      rw [← same.mem_iff]
      exact List.mem_map.2 ⟨entry, member, rfl⟩
    obtain ⟨other, present, parts⟩ := List.mem_map.1 listed
    obtain ⟨key, _, value⟩ : other.1 = entry.1 ∧ other.2.location = entry.2.location ∧
        other.2.value = entry.2.value := by simpa using parts
    refine ⟨other.2, key ▸ OrderedMap.get?_of_mem present, ?_⟩
    rw [Node.beq_eq, value, equal entry member, Bool.or_true]

/-- Maps with equal contents are equal if their values equal themselves. -/
theorem NameMap.beq_of_contents {α : Type} [BEq α] {left right : NameMap (Node α)}
    (same : NameMap.contents left = NameMap.contents right)
    (equal : ∀ entry ∈ left.entries, (entry.2.value == entry.2.value) = true) :
    (left == right) = true :=
  NameMap.beq_of_perm (.of_eq same) equal

/-- The entries of a set of names are its names. -/
theorem NameSet.entries_eq (names : NameSet) :
    names.entries = names.keys.map fun name => (name, ()) := by
  simp [OrderedMap.keys, Function.comp_def]

/-- A set of names is known by the list of them. -/
theorem NameSet.eq_of_keys {left right : NameSet} (same : left.keys = right.keys) :
    left = right := by
  refine OrderedMap.ext ?_
  rw [NameSet.entries_eq left, NameSet.entries_eq right, same]

theorem NameSet.entries_perm {left right : NameSet} (same : left.keys.Perm right.keys) :
    left.entries.Perm right.entries := by
  rw [NameSet.entries_eq left, NameSet.entries_eq right]
  exact same.map _

theorem Node.beq_of_value {α : Type} [BEq α] {left right : Node α}
    (equal : (left.value == right.value) = true) : (left == right) = true := by
  rw [Node.beq_eq, equal, Bool.or_true]

/-- Object and interface types are equal in whatever order their interfaces and fields are. -/
theorem ObjectLikeType.beq_of_perm {left right : ObjectLikeType}
    (description : left.description = right.description) (name : left.name = right.name)
    (interfaces : left.interfaces.keys.Perm right.interfaces.keys)
    (directives : left.directives = right.directives)
    (fields : (NameMap.contents left.fields).Perm (NameMap.contents right.fields)) :
    (left == right) = true := by
  rw [ObjectLikeType.beq_eq, NameMap.beq_of_perm fields fun _ _ => BEq.rfl, description, name,
    OrderedMap.beq_of_perm (NameSet.entries_perm interfaces), directives]
  simp

theorem ObjectLikeType.beq_of_contents {left right : ObjectLikeType}
    (description : left.description = right.description) (name : left.name = right.name)
    (interfaces : left.interfaces.keys = right.interfaces.keys)
    (directives : left.directives = right.directives)
    (fields : NameMap.contents left.fields = NameMap.contents right.fields) :
    (left == right) = true :=
  ObjectLikeType.beq_of_perm description name (.of_eq interfaces) directives (.of_eq fields)

theorem ScalarType.beq_of_contents {left right : ScalarType}
    (description : left.description = right.description) (name : left.name = right.name)
    (directives : left.directives = right.directives) : (left == right) = true := by
  rw [ScalarDefinition.beq_eq, description, name, directives]
  simp

theorem UnionType.beq_of_contents {left right : UnionType}
    (description : left.description = right.description) (name : left.name = right.name)
    (directives : left.directives = right.directives)
    (members : left.members.keys = right.members.keys) : (left == right) = true := by
  rw [UnionType.beq_eq, description, name, directives, NameSet.eq_of_keys members]
  simp

theorem EnumType.beq_of_contents {left right : EnumType}
    (description : left.description = right.description) (name : left.name = right.name)
    (directives : left.directives = right.directives)
    (values : NameMap.contents left.values = NameMap.contents right.values)
    (equal : ∀ entry ∈ left.values.entries, (entry.2.value == entry.2.value) = true) :
    (left == right) = true := by
  rw [EnumType.beq_eq, NameMap.beq_of_contents values equal, description, name, directives]
  simp

theorem InputObjectType.beq_of_contents {left right : InputObjectType}
    (description : left.description = right.description) (name : left.name = right.name)
    (directives : left.directives = right.directives)
    (fields : left.fields.entries = right.fields.entries) : (left == right) = true := by
  rw [InputObjectType.beq_eq, description, name, directives, OrderedMap.ext fields]
  simp

/-! ## Types and schemas -/

/-- All that a type holds but the marks of its nodes. What types of its kind do not have is
empty. -/
structure TypeContent where
  kind : TypeKind
  location : Option Location
  description : Option String
  name : Name
  directives : Directives
  interfaces : List Name
  fields : List (Name × Option Location × Field)
  members : List Name
  values : List (Name × Option Location × EnumValue)
  inputFields : List (Name × Node InputValueDefinition)

namespace SchemaType

/-- The interfaces that a type implements, in order. -/
def interfaceNames : SchemaType → List Name
  | object type | interface type => type.value.interfaces.keys
  | scalar _ | union _ | enum _ | inputObject _ => []

/-- The fields of an object or interface type, in order. -/
def fieldContents : SchemaType → List (Name × Option Location × Field)
  | object type | interface type => NameMap.contents type.value.fields
  | scalar _ | union _ | enum _ | inputObject _ => []

/-- The members of a union, in order. -/
def memberNames : SchemaType → List Name
  | union type => type.value.members.keys
  | scalar _ | object _ | interface _ | enum _ | inputObject _ => []

/-- The values of an enum type, in order. -/
def valueContents : SchemaType → List (Name × Option Location × EnumValue)
  | enum type => NameMap.contents type.value.values
  | scalar _ | object _ | interface _ | union _ | inputObject _ => []

/-- The fields of an input object type, in order. -/
def inputFieldEntries : SchemaType → List (Name × Node InputValueDefinition)
  | inputObject type => type.value.fields.entries
  | scalar _ | object _ | interface _ | union _ | enum _ => []

/-- What a type holds. -/
def content (type : SchemaType) : TypeContent where
  kind := type.kind
  location := type.location
  description := type.description
  name := type.name
  directives := type.directives
  interfaces := type.interfaceNames
  fields := type.fieldContents
  members := type.memberNames
  values := type.valueContents
  inputFields := type.inputFieldEntries

end SchemaType

/-- Types hold the same if they agree in what all types have and in what their kind has. -/
theorem SchemaType.content_congr {left right : SchemaType} (kind : left.kind = right.kind)
    (location : left.location = right.location)
    (description : left.description = right.description) (name : left.name = right.name)
    (directives : left.directives = right.directives)
    (interfaces : left.interfaceNames = right.interfaceNames)
    (fields : left.fieldContents = right.fieldContents)
    (members : left.memberNames = right.memberNames)
    (values : left.valueContents = right.valueContents)
    (inputFields : left.inputFieldEntries = right.inputFieldEntries) :
    left.content = right.content := by
  unfold content
  rw [kind, location, description, name, directives, interfaces, fields, members, values,
    inputFields]

/-- All that a schema holds, in order, but the marks of its nodes and the files that it was read
from. -/
structure SchemaContent where
  types : List (String × TypeContent)
  directives : List (Name × Node DirectiveDefinition)
  roots : RootOperations

/-- What a schema holds. -/
def Schema.content (schema : Schema) : SchemaContent where
  types := schema.types.entries.map fun entry => (entry.1.text, entry.2.content)
  directives := schema.directives.entries
  roots := schema.roots

/-- Types in the same order hold the same if those of the same name do. -/
theorem map_content_eq_of_texts {left right : NameMap SchemaType}
    (texts : NameMap.texts left = NameMap.texts right)
    (agree : ∀ {name leftType rightType}, left.get? name = some leftType →
      right.get? name = some rightType → leftType.content = rightType.content) :
    left.entries.map (fun entry => (entry.1.text, entry.2.content)) =
      right.entries.map fun entry => (entry.1.text, entry.2.content) := by
  refine List.ext_getElem ?_ ?_
  · have lengths := congrArg List.length texts
    simpa [NameMap.texts, OrderedMap.keys] using lengths
  · intro index left_bound right_bound
    rw [List.length_map] at left_bound right_bound
    rw [List.getElem_map, List.getElem_map]
    have same : (left.entries[index]).1.text = (right.entries[index]).1.text := by
      have parts := congrArg (fun texts => texts[index]?) texts
      simpa [NameMap.texts, OrderedMap.keys, left_bound, right_bound] using parts
    have stored := OrderedMap.get?_of_mem (List.getElem_mem left_bound)
    rw [OrderedMap.get?_congr _ (Name.beq_iff_text_eq.2 same)] at stored
    rw [same, agree stored (OrderedMap.get?_of_mem (List.getElem_mem right_bound))]

end SchemaGraft
