import SchemaGraft.Extension.Extend
import SchemaGraft.Proofs.OrderedMaps

/-!
# The shape of a schema

Two runs that extend one schema by one document can differ in two ways: in their numbers, which mark
the nodes that they make, and in the resolvers that they assign. The shape of a schema is what is
left of it without both. Everything else is in it: all texts and places, the order of all maps, the
keys under which types and members are stored, the deprecations, and the nodes that were read from
documents.

Shapes go through all that building handles, from a node (`Node.shape`) to the state of a build
(`BuildState.shape`). What building looks up in a map can be looked up in the shape of the map
(`OrderedMap.get?_mapValues`), so it depends on the shapes alone.
-/

set_option autoImplicit false

namespace SchemaGraft

/-! ## Maps with other values -/

namespace OrderedMap

universe u v w

variable {κ : Type u} {ν : Type v} {μ : Type w} [BEq κ]

/-- The map that has another value for each key. -/
def mapValues (map : OrderedMap κ ν) (change : ν → μ) : OrderedMap κ μ :=
  ⟨map.entries.map fun entry => (entry.1, change entry.2), List.pairwise_map.2 map.distinct⟩

variable (map : OrderedMap κ ν) (change : ν → μ)

theorem find?_mapValues (key : κ) :
    (map.mapValues change).find? key =
      (map.find? key).map fun entry => (entry.1, change entry.2) := by
  rw [find?, mapValues, List.find?_map]
  rfl

theorem get?_mapValues (key : κ) :
    (map.mapValues change).get? key = (map.get? key).map change := by
  simp [get?, find?_mapValues, Function.comp_def]

theorem mapValues_insert (key : κ) (value : ν) :
    (map.insert key value).mapValues change = (map.mapValues change).insert key (change value) := by
  refine OrderedMap.ext ?_
  show (insertEntry key value map.entries).map (fun entry => (entry.1, change entry.2)) =
    insertEntry key (change value) (map.entries.map fun entry => (entry.1, change entry.2))
  induction map.entries with
  | nil => rfl
  | cons entry rest ih =>
      rw [insertEntry, List.map_cons, insertEntry]
      split
      · rfl
      · rw [List.map_cons, ih]

/-- Building a map and replacing its values can be done in either order. -/
theorem mapValues_ofList (entries : List (κ × ν)) :
    (ofList entries).mapValues change =
      ofList (entries.map fun entry => (entry.1, change entry.2)) := by
  suffices from_any : ∀ map : OrderedMap κ ν,
      (entries.foldl (fun built entry => built.insert entry.1 entry.2) map).mapValues change =
        (entries.map fun entry => (entry.1, change entry.2)).foldl
          (fun built entry => built.insert entry.1 entry.2) (map.mapValues change) from
    from_any empty
  induction entries with
  | nil => exact fun _ => rfl
  | cons entry rest ih =>
      intro map
      rw [List.foldl_cons, ih, List.map_cons, List.foldl_cons, mapValues_insert]

/-- A key is only added by its own insertion. -/
theorem mem_keys_insert {map : OrderedMap κ ν} {key other : κ} {value : ν}
    (member : other ∈ (map.insert key value).keys) : other = key ∨ other ∈ map.keys := by
  obtain ⟨entry, listed, rfl⟩ := List.mem_map.1 member
  refine (fst_of_mem_insertEntry listed).imp_right ?_
  rintro ⟨old, before, same⟩
  exact same ▸ List.mem_map_of_mem before

/-- A map that is made of a list has no keys but those of the list. -/
theorem mem_keys_ofList {entries : List (κ × ν)} {key : κ} (member : key ∈ (ofList entries).keys) :
    key ∈ entries.map (·.1) := by
  suffices from_any : ∀ map : OrderedMap κ ν,
      key ∈ (entries.foldl (fun built entry => built.insert entry.1 entry.2) map).keys →
        key ∈ map.keys ∨ key ∈ entries.map (·.1) from
    (from_any empty member).resolve_left List.not_mem_nil
  clear member
  induction entries with
  | nil => exact fun _ present => .inl present
  | cons entry rest ih =>
      intro map present
      rw [List.map_cons, List.mem_cons]
      rcases ih _ present with present | listed
      · exact (mem_keys_insert present).symm.imp_right .inl
      · exact .inr (.inr listed)

end OrderedMap

/-! ## Shapes -/

/-- An identity without the number of a run. -/
def NodeId.shape : NodeId → NodeId
  | parsed location => .parsed location
  | built _ part => .built 0 part

/-- A node without the number of a run. -/
def Node.shape {α β : Type} (change : α → β) (node : Node α) : Node β :=
  ⟨node.identity.shape, node.location, change node.value⟩

/-- A map of nodes without the numbers of runs. -/
def NameMap.shape {α β : Type} (change : α → β) (map : NameMap (Node α)) : NameMap (Node β) :=
  OrderedMap.mapValues map (Node.shape change)

/-- A field without its resolver. -/
def Field.shape (field : Field) : Field := { field with resolver := none }

/-- An object or interface type without the resolvers of its fields. -/
def ObjectLikeType.shape (type : ObjectLikeType) : ObjectLikeType :=
  { type with fields := NameMap.shape Field.shape type.fields }

/-- An enum type without the numbers of runs. -/
def EnumType.shape (type : EnumType) : EnumType :=
  { type with values := NameMap.shape id type.values }

/-- A type without numbers of runs and without resolvers. -/
def SchemaType.shape : SchemaType → SchemaType
  | scalar type => .scalar (type.shape id)
  | object type => .object (type.shape ObjectLikeType.shape)
  | interface type => .interface (type.shape ObjectLikeType.shape)
  | union type => .union (type.shape id)
  | enum type => .enum (type.shape EnumType.shape)
  | inputObject type => .inputObject (type.shape id)

/-- A schema without numbers of runs and without resolvers. -/
def Schema.shape (schema : Schema) : Schema :=
  { schema with types := schema.types.mapValues SchemaType.shape }

/-- What a schema became, without numbers of runs and without resolvers. -/
def ExtendedSchema.shape : ExtendedSchema → ExtendedSchema
  | unchanged => .unchanged
  | changed schema => .changed schema.shape

/-- How far a type has come, without numbers of runs and without resolvers. -/
def BuildSlot.shape : BuildSlot → BuildSlot
  | inProgress kind => .inProgress kind
  | built type => .built type.shape

/-- How far building has come, without numbers of runs and without resolvers. -/
def BuildState.shape (state : BuildState) : BuildState :=
  { state with slots := state.slots.mapValues BuildSlot.shape }

theorem SchemaType.kind_shape (type : SchemaType) : type.shape.kind = type.kind := by
  cases type <;> rfl

theorem BuildSlot.kind_shape (slot : BuildSlot) : slot.shape.kind = slot.kind := by
  cases slot with
  | inProgress kind => rfl
  | built type => exact type.kind_shape

end SchemaGraft
