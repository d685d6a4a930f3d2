import SchemaGraft.Document.Fingerprint
import SchemaGraft.Proofs.Bare

/-!
# Equality of definitions

Nodes that are one are equal, and nobody looks at what they hold. That changes no answer where nodes
that are one hold the same, as the nodes in a program's memory do (`Memory`). Things are then equal
if and only if they are the same without places, whatever is shared and whatever is not
(`Memory.ComparesBy`). A lemma `compares` says so for each kind of part of a document, from values
up to definitions.

A fingerprint does not tell of places either (`Definition.fingerprint_bare`). So equal definitions
have the same fingerprint (`Definition.fingerprint_eq_of_beq`).
-/

set_option autoImplicit false

namespace SchemaGraft

/-! ## Memories -/

/-- The nodes that there are. Nodes of a kind that are one have one value. -/
structure Memory where
  holds : {α : Type} → Node α → Prop
  value_eq : ∀ {α : Type} {left right : Node α}, holds left → holds right →
    left.isSame right = true → left.value = right.value

/-- A node is in a memory with all that is inside it. -/
structure Node.IsIn {α : Type} (memory : Memory) (inside : Memory → α → Prop) (node : Node α) :
    Prop where
  held : memory.holds node
  inside : inside memory node.value

namespace Value

mutual

/-- The nodes inside a value are in a memory. -/
def IsIn (memory : Memory) : Value → Prop
  | list items => AreItemsIn memory items
  | object fields => AreFieldsIn memory fields
  | null | enumValue _ | variableReference _ | string _ | float _ | int _ | boolean _ => True

/-- The items of a list are in a memory. -/
def AreItemsIn (memory : Memory) : List (Node Value) → Prop
  | [] => True
  | ⟨identity, location, item⟩ :: rest =>
    memory.holds (⟨identity, location, item⟩ : Node Value) ∧ IsIn memory item ∧
      AreItemsIn memory rest

/-- The fields of an object are in a memory. -/
def AreFieldsIn (memory : Memory) : List (Name × Node Value) → Prop
  | [] => True
  | (_, ⟨identity, location, value⟩) :: rest =>
    memory.holds (⟨identity, location, value⟩ : Node Value) ∧ IsIn memory value ∧
      AreFieldsIn memory rest

end

end Value

/-- There are no nodes inside a reference to a type. -/
def TypeReference.IsIn (_memory : Memory) (_reference : TypeReference) : Prop := True

def Argument.IsIn (memory : Memory) (argument : Argument) : Prop :=
  argument.value.IsIn memory Value.IsIn

def Directive.IsIn (memory : Memory) (directive : Directive) : Prop :=
  ∀ argument ∈ directive.arguments, argument.IsIn memory Argument.IsIn

def Directives.IsIn (memory : Memory) (directives : Directives) : Prop :=
  ∀ directive ∈ directives, directive.IsIn memory Directive.IsIn

structure InputValueDefinition.IsIn (memory : Memory) (definition : InputValueDefinition) :
    Prop where
  type : definition.type.IsIn memory TypeReference.IsIn
  default : ∀ value ∈ definition.default, value.IsIn memory Value.IsIn
  directives : Directives.IsIn memory definition.directives

structure FieldDefinition.IsIn (memory : Memory) (definition : FieldDefinition) : Prop where
  arguments : ∀ argument ∈ definition.arguments, argument.IsIn memory InputValueDefinition.IsIn
  type : definition.type.IsIn memory TypeReference.IsIn
  directives : Directives.IsIn memory definition.directives

def EnumValueDefinition.IsIn (memory : Memory) (definition : EnumValueDefinition) : Prop :=
  Directives.IsIn memory definition.directives

def ScalarDefinition.IsIn (memory : Memory) (definition : ScalarDefinition) : Prop :=
  Directives.IsIn memory definition.directives

structure ObjectLikeDefinition.IsIn (memory : Memory) (definition : ObjectLikeDefinition) :
    Prop where
  directives : Directives.IsIn memory definition.directives
  fields : ∀ field ∈ definition.fields, field.IsIn memory FieldDefinition.IsIn

def UnionDefinition.IsIn (memory : Memory) (definition : UnionDefinition) : Prop :=
  Directives.IsIn memory definition.directives

structure EnumDefinition.IsIn (memory : Memory) (definition : EnumDefinition) : Prop where
  directives : Directives.IsIn memory definition.directives
  values : ∀ value ∈ definition.values, value.IsIn memory EnumValueDefinition.IsIn

structure InputObjectDefinition.IsIn (memory : Memory) (definition : InputObjectDefinition) :
    Prop where
  directives : Directives.IsIn memory definition.directives
  fields : ∀ field ∈ definition.fields, field.IsIn memory InputValueDefinition.IsIn

def TypeDefinition.IsIn (memory : Memory) : TypeDefinition → Prop
  | scalar definition => definition.IsIn memory ScalarDefinition.IsIn
  | object definition | interface definition => definition.IsIn memory ObjectLikeDefinition.IsIn
  | union definition => definition.IsIn memory UnionDefinition.IsIn
  | enum definition => definition.IsIn memory EnumDefinition.IsIn
  | inputObject definition => definition.IsIn memory InputObjectDefinition.IsIn

def DirectiveDefinition.IsIn (memory : Memory) (definition : DirectiveDefinition) : Prop :=
  ∀ argument ∈ definition.arguments, argument.IsIn memory InputValueDefinition.IsIn

structure ObjectExtension.IsIn (memory : Memory) (extension : ObjectExtension) : Prop where
  directives : Directives.IsIn memory extension.directives
  fields : ∀ field ∈ extension.fields, field.IsIn memory FieldDefinition.IsIn

/-- There are no nodes inside the extension of a type that is no object type. -/
def OtherExtension.IsIn (_memory : Memory) (_extension : OtherExtension) : Prop := True

/-- There are no nodes inside a definition that changes neither types nor directives. -/
def UnrelatedDefinition.IsIn (_memory : Memory) (_definition : UnrelatedDefinition) : Prop := True

/-- The nodes of a definition are in a memory. -/
def Definition.IsIn (memory : Memory) : Definition → Prop
  | directive definition => definition.IsIn memory DirectiveDefinition.IsIn
  | type definition => definition.IsIn memory
  | objectExtension extension => extension.IsIn memory ObjectExtension.IsIn
  | otherExtension extension => extension.IsIn memory OtherExtension.IsIn
  | unrelated definition => definition.IsIn memory UnrelatedDefinition.IsIn

/-! ## Equality in a memory -/

section Comparing

variable {α β : Type} {memory : Memory} {inside : Memory → α → Prop} {essence : α → β}

/-- **That two nodes are one adds nothing** to what their values say. -/
theorem Memory.isSame_or_iff {left right : Node α} (left_held : memory.holds left)
    (right_held : memory.holds right) {equal : Bool}
    (each : equal = true ↔ essence left.value = essence right.value) :
    (left.isSame right || equal) = true ↔ essence left.value = essence right.value := by
  rw [Bool.or_eq_true, each]
  constructor
  · rintro (same | equal)
    · rw [memory.value_eq left_held right_held same]
    · exact equal
  · exact .inr

variable [BEq α]

/-- In a memory, things of a kind are equal if and only if they have the same essence. -/
structure Memory.ComparesBy (memory : Memory) (inside : Memory → α → Prop) (essence : α → β) :
    Prop where
  iff : ∀ {left right : α}, inside memory left → inside memory right →
    ((left == right) = true ↔ essence left = essence right)

theorem Memory.ComparesBy.node (compares : memory.ComparesBy inside essence) :
    memory.ComparesBy (fun memory node => Node.IsIn memory inside node)
      (fun node => essence node.value) :=
  ⟨fun left_in right_in => memory.isSame_or_iff left_in.held right_in.held
    (compares.iff left_in.inside right_in.inside)⟩

theorem Memory.ComparesBy.bareNode {bare : α → α} (compares : memory.ComparesBy inside bare) :
    memory.ComparesBy (fun memory node => Node.IsIn memory inside node) (Node.bare bare) :=
  ⟨fun left_in right_in => (compares.node.iff left_in right_in).trans Node.bare_eq_iff.symm⟩

/-- Comparing nodes of a kind is comparing their values, whether or not they are one. -/
def Memory.IgnoresSharing (memory : Memory) (inside : Memory → α → Prop) : Prop :=
  ∀ left right : Node α, left.IsIn memory inside → right.IsIn memory inside →
    (left == right) = (left.value == right.value)

/-- **The shortcut of nodes that are one changes no answer.** -/
theorem Memory.ComparesBy.ignoresSharing (compares : memory.ComparesBy inside essence) :
    memory.IgnoresSharing inside := by
  intro left right left_in right_in
  rw [Bool.eq_iff_iff, compares.node.iff left_in right_in,
    compares.iff left_in.inside right_in.inside]

/-- Things that are compared by their essences fall into classes of equal ones. -/
theorem Memory.ComparesBy.equivalence (compares : memory.ComparesBy inside essence) :
    Equivalence fun left right : {value : α // inside memory value} =>
      (left.val == right.val) = true where
  refl value := (compares.iff value.2 value.2).2 rfl
  symm := by
    intro left right same
    exact (compares.iff right.2 left.2).2 ((compares.iff left.2 right.2).1 same).symm
  trans := by
    intro first second third early late
    exact (compares.iff first.2 third.2).2
      (((compares.iff first.2 second.2).1 early).trans ((compares.iff second.2 third.2).1 late))

/-- Lists are equal if their items are, one by one. -/
theorem Memory.ComparesBy.list (compares : memory.ComparesBy inside essence) :
    memory.ComparesBy (fun memory items => ∀ item ∈ items, inside memory item)
      (List.map essence) := by
  constructor
  intro left right left_in right_in
  induction left generalizing right with
  | nil => cases right <;> simp
  | cons first rest ih =>
      cases right with
      | nil => simp
      | cons other others =>
          rw [List.forall_mem_cons] at left_in right_in
          rw [List.cons_beq_cons, Bool.and_eq_true, compares.iff left_in.1 right_in.1,
            ih left_in.2 right_in.2, List.map_cons, List.map_cons, List.cons.injEq]

theorem Memory.ComparesBy.option (compares : memory.ComparesBy inside essence) :
    memory.ComparesBy (fun memory option => ∀ value ∈ option, inside memory value)
      (Option.map essence) := by
  constructor
  intro left right left_in right_in
  cases left with
  | none => cases right <;> simp
  | some value =>
      cases right with
      | none => simp
      | some other =>
          rw [Option.some_beq_some, compares.iff (left_in value rfl) (right_in other rfl)]
          simp

end Comparing

/-! ## Parts of definitions -/

theorem Name.beq_iff_bare {left right : Name} :
    (left == right) = true ↔ left.bare = right.bare :=
  Name.beq_iff_text_eq.trans Name.bare_eq_iff.symm

section Parts

variable {memory : Memory}

mutual

theorem Value.same_iff_bare (left : Value) {right : Value} (left_in : left.IsIn memory)
    (right_in : right.IsIn memory) : left.same right = true ↔ left.bare = right.bare := by
  cases left <;> cases right <;>
    simp only [Value.same, Value.bare, reduceCtorEq, Bool.false_eq_true, beq_iff_eq,
      Value.string.injEq, Value.float.injEq, Value.int.injEq, Value.boolean.injEq,
      Value.enumValue.injEq, Value.variableReference.injEq, Value.list.injEq, Value.object.injEq,
      Name.beq_iff_bare]
  case list.list items others => exact Value.sameItems_iff_bare items left_in right_in
  case object.object fields others => exact Value.sameFields_iff_bare fields left_in right_in

theorem Value.sameItems_iff_bare (left : List (Node Value)) {right : List (Node Value)}
    (left_in : Value.AreItemsIn memory left) (right_in : Value.AreItemsIn memory right) :
    Value.sameItems left right = true ↔ Value.bareItems left = Value.bareItems right := by
  cases left with
  | nil => cases right <;> simp [Value.sameItems, Value.bareItems]
  | cons first rest =>
      obtain ⟨identity, location, item⟩ := first
      cases right with
      | nil => simp [Value.sameItems, Value.bareItems]
      | cons other others =>
          obtain ⟨left_held, item_in, rest_in⟩ := left_in
          obtain ⟨right_held, other_in, others_in⟩ := right_in
          have here := memory.isSame_or_iff left_held right_held
            (Value.same_iff_bare item item_in other_in)
          have later := Value.sameItems_iff_bare rest rest_in others_in
          unfold Node.isSame at here
          simp only [Value.sameItems, Value.bareItems, List.cons.injEq, Node.mk.injEq, true_and]
          rw [Bool.and_eq_true, here, later]

theorem Value.sameFields_iff_bare (left : List (Name × Node Value))
    {right : List (Name × Node Value)} (left_in : Value.AreFieldsIn memory left)
    (right_in : Value.AreFieldsIn memory right) :
    Value.sameFields left right = true ↔ Value.bareFields left = Value.bareFields right := by
  cases left with
  | nil => cases right <;> simp [Value.sameFields, Value.bareFields]
  | cons first rest =>
      obtain ⟨name, identity, location, value⟩ := first
      cases right with
      | nil => simp [Value.sameFields, Value.bareFields]
      | cons other others =>
          obtain ⟨left_held, value_in, rest_in⟩ := left_in
          obtain ⟨right_held, other_in, others_in⟩ := right_in
          have here := memory.isSame_or_iff left_held right_held
            (Value.same_iff_bare value value_in other_in)
          have later := Value.sameFields_iff_bare rest rest_in others_in
          unfold Node.isSame at here
          simp only [Value.sameFields, Value.bareFields, List.cons.injEq, Prod.mk.injEq,
            Node.mk.injEq, true_and]
          rw [Bool.and_eq_true, Bool.and_eq_true, here, later, Name.beq_iff_bare]

end

variable (memory)

theorem Name.compares : memory.ComparesBy (fun _ _ => True) Name.bare :=
  ⟨fun _ _ => Name.beq_iff_bare⟩

theorem Value.compares : memory.ComparesBy Value.IsIn Value.bare :=
  ⟨fun left_in right_in => Value.same_iff_bare _ left_in right_in⟩

theorem TypeReference.compares : memory.ComparesBy TypeReference.IsIn TypeReference.bare := by
  constructor
  intro left right _ _
  show left.same right = true ↔ _
  suffices same_iff : ∀ right, left.same right = true ↔ left.bare = right.bare from same_iff right
  induction left with
  | named name | nonNullNamed name =>
      rintro (_ | _ | _ | _) <;> simp [same, bare, Name.beq_iff_bare]
  | list item ih | nonNullList item ih =>
      rintro (_ | _ | _ | _) <;> simp [same, bare, ih trivial]

theorem Argument.compares : memory.ComparesBy Argument.IsIn Argument.bare := by
  constructor
  intro left right left_in right_in
  rw [Argument.beq_eq, Bool.and_eq_true, Name.beq_iff_bare,
    (Value.compares memory).bareNode.iff left_in right_in, bare, bare, mk.injEq]

theorem Directive.compares : memory.ComparesBy Directive.IsIn Directive.bare := by
  constructor
  intro left right left_in right_in
  rw [Directive.beq_eq, Bool.and_eq_true, Name.beq_iff_bare,
    (Argument.compares memory).bareNode.list.iff left_in right_in, bare, bare, mk.injEq]

theorem Directives.compares : memory.ComparesBy Directives.IsIn Directives.bare :=
  (Directive.compares memory).bareNode.list

theorem InputValueDefinition.compares :
    memory.ComparesBy InputValueDefinition.IsIn InputValueDefinition.bare := by
  constructor
  intro left right left_in right_in
  simp only [InputValueDefinition.beq_eq, Bool.and_eq_true, beq_iff_eq, Name.beq_iff_bare, bare,
    mk.injEq,
    (TypeReference.compares memory).bareNode.iff left_in.type right_in.type,
    (Value.compares memory).bareNode.option.iff left_in.default right_in.default,
    (Directives.compares memory).iff left_in.directives right_in.directives]

theorem FieldDefinition.compares :
    memory.ComparesBy FieldDefinition.IsIn FieldDefinition.bare := by
  constructor
  intro left right left_in right_in
  have parts_eq : (left == right) =
      (left.description == right.description && (left.name == right.name &&
        (left.arguments == right.arguments && (left.type == right.type &&
          left.directives == right.directives)))) := rfl
  simp only [parts_eq, Bool.and_eq_true, beq_iff_eq, Name.beq_iff_bare, bare, mk.injEq,
    (InputValueDefinition.compares memory).bareNode.list.iff left_in.arguments right_in.arguments,
    (TypeReference.compares memory).bareNode.iff left_in.type right_in.type,
    (Directives.compares memory).iff left_in.directives right_in.directives]

theorem EnumValueDefinition.compares :
    memory.ComparesBy EnumValueDefinition.IsIn EnumValueDefinition.bare := by
  constructor
  intro left right left_in right_in
  have parts_eq : (left == right) = (left.description == right.description &&
      (left.name == right.name && left.directives == right.directives)) := rfl
  simp only [parts_eq, Bool.and_eq_true, beq_iff_eq, Name.beq_iff_bare, bare, mk.injEq,
    (Directives.compares memory).iff left_in right_in]

/-! ## Definitions of types and directives -/

theorem ScalarDefinition.compares :
    memory.ComparesBy ScalarDefinition.IsIn ScalarDefinition.bare := by
  constructor
  intro left right left_in right_in
  simp only [ScalarDefinition.beq_eq, Bool.and_eq_true, beq_iff_eq, Name.beq_iff_bare, bare,
    mk.injEq,
    (Directives.compares memory).iff left_in right_in]

theorem ObjectLikeDefinition.compares :
    memory.ComparesBy ObjectLikeDefinition.IsIn ObjectLikeDefinition.bare := by
  constructor
  intro left right left_in right_in
  have parts_eq : (left == right) =
      (left.description == right.description && (left.name == right.name &&
        (left.interfaces == right.interfaces && (left.directives == right.directives &&
          left.fields == right.fields)))) := rfl
  simp only [parts_eq, Bool.and_eq_true, beq_iff_eq, Name.beq_iff_bare, bare, mk.injEq,
    (Name.compares memory).list.iff (fun _ _ => trivial) (fun _ _ => trivial),
    (Directives.compares memory).iff left_in.directives right_in.directives,
    (FieldDefinition.compares memory).bareNode.list.iff left_in.fields right_in.fields]

theorem UnionDefinition.compares :
    memory.ComparesBy UnionDefinition.IsIn UnionDefinition.bare := by
  constructor
  intro left right left_in right_in
  have parts_eq : (left == right) = (left.description == right.description &&
      (left.name == right.name && (left.directives == right.directives &&
        left.members == right.members))) := rfl
  simp only [parts_eq, Bool.and_eq_true, beq_iff_eq, Name.beq_iff_bare, bare, mk.injEq,
    (Name.compares memory).list.iff (fun _ _ => trivial) (fun _ _ => trivial),
    (Directives.compares memory).iff left_in right_in]

theorem EnumDefinition.compares : memory.ComparesBy EnumDefinition.IsIn EnumDefinition.bare := by
  constructor
  intro left right left_in right_in
  have parts_eq : (left == right) = (left.description == right.description &&
      (left.name == right.name && (left.directives == right.directives &&
        left.values == right.values))) := rfl
  simp only [parts_eq, Bool.and_eq_true, beq_iff_eq, Name.beq_iff_bare, bare, mk.injEq,
    (Directives.compares memory).iff left_in.directives right_in.directives,
    (EnumValueDefinition.compares memory).bareNode.list.iff left_in.values right_in.values]

theorem InputObjectDefinition.compares :
    memory.ComparesBy InputObjectDefinition.IsIn InputObjectDefinition.bare := by
  constructor
  intro left right left_in right_in
  have parts_eq : (left == right) = (left.description == right.description &&
      (left.name == right.name && (left.directives == right.directives &&
        left.fields == right.fields))) := rfl
  simp only [parts_eq, Bool.and_eq_true, beq_iff_eq, Name.beq_iff_bare, bare, mk.injEq,
    (Directives.compares memory).iff left_in.directives right_in.directives,
    (InputValueDefinition.compares memory).bareNode.list.iff left_in.fields right_in.fields]

theorem TypeDefinition.compares : memory.ComparesBy TypeDefinition.IsIn TypeDefinition.bare := by
  constructor
  intro left right left_in right_in
  cases left <;> cases right <;> simp only [bare, reduceCtorEq, scalar.injEq, object.injEq,
    interface.injEq, union.injEq, enum.injEq, inputObject.injEq, iff_false]
  case scalar.scalar => exact (ScalarDefinition.compares memory).bareNode.iff left_in right_in
  case object.object | interface.interface =>
      exact (ObjectLikeDefinition.compares memory).bareNode.iff left_in right_in
  case union.union => exact (UnionDefinition.compares memory).bareNode.iff left_in right_in
  case enum.enum => exact (EnumDefinition.compares memory).bareNode.iff left_in right_in
  case inputObject.inputObject =>
      exact (InputObjectDefinition.compares memory).bareNode.iff left_in right_in
  all_goals exact Bool.false_ne_true

theorem DirectiveDefinition.compares :
    memory.ComparesBy DirectiveDefinition.IsIn DirectiveDefinition.bare := by
  constructor
  intro left right left_in right_in
  simp only [DirectiveDefinition.beq_eq, Bool.and_eq_true, beq_iff_eq, Name.beq_iff_bare, bare,
    mk.injEq,
    (InputValueDefinition.compares memory).bareNode.list.iff left_in right_in]

/-! ## Extensions and other definitions -/

theorem ObjectExtension.compares :
    memory.ComparesBy ObjectExtension.IsIn ObjectExtension.bare := by
  constructor
  intro left right left_in right_in
  have parts_eq : (left == right) = (left.name == right.name &&
      (left.interfaces == right.interfaces && (left.directives == right.directives &&
        left.fields == right.fields))) := rfl
  simp only [parts_eq, Bool.and_eq_true, Name.beq_iff_bare, bare, mk.injEq,
    (Name.compares memory).list.iff (fun _ _ => trivial) (fun _ _ => trivial),
    (Directives.compares memory).iff left_in.directives right_in.directives,
    (FieldDefinition.compares memory).bareNode.list.iff left_in.fields right_in.fields]

theorem OtherExtension.compares : memory.ComparesBy OtherExtension.IsIn OtherExtension.bare := by
  constructor
  intro left right _ _
  have parts_eq : (left == right) =
      (left.keyword == right.keyword && left.name == right.name) := rfl
  simp only [parts_eq, Bool.and_eq_true, beq_iff_eq, Name.beq_iff_bare, bare, mk.injEq]

theorem UnrelatedDefinition.compares :
    memory.ComparesBy UnrelatedDefinition.IsIn UnrelatedDefinition.bare := by
  constructor
  intro left right _ _
  cases left <;> cases right <;> simp only [bare, reduceCtorEq, operation.injEq, fragment.injEq,
    iff_false, iff_true]
  case operation.operation =>
      exact (Name.compares memory).option.iff (fun _ _ => trivial) (fun _ _ => trivial)
  case fragment.fragment => exact Name.beq_iff_bare
  case schema.schema | schemaExtension.schemaExtension => rfl
  all_goals exact Bool.false_ne_true

/-- **Definitions are equal if and only if they are the same without places.** -/
theorem Definition.compares : memory.ComparesBy Definition.IsIn Definition.bare := by
  constructor
  intro left right left_in right_in
  cases left <;> cases right <;> simp only [bare, reduceCtorEq, directive.injEq, type.injEq,
    objectExtension.injEq, otherExtension.injEq, unrelated.injEq, iff_false]
  case directive.directive =>
      exact (DirectiveDefinition.compares memory).bareNode.iff left_in right_in
  case type.type => exact (TypeDefinition.compares memory).iff left_in right_in
  case objectExtension.objectExtension =>
      exact (ObjectExtension.compares memory).bareNode.iff left_in right_in
  case otherExtension.otherExtension =>
      exact (OtherExtension.compares memory).bareNode.iff left_in right_in
  case unrelated.unrelated =>
      exact (UnrelatedDefinition.compares memory).bareNode.iff left_in right_in
  all_goals exact Bool.false_ne_true

end Parts

/-! ## Fingerprints -/

open Fingerprint

@[simp]
theorem Name.fingerprint_bare (name : Name) : name.bare.fingerprint = name.fingerprint := rfl

theorem Fingerprint.ofList_map {α : Type} {part : α → Fingerprint} {bare : α → α}
    (same : ∀ item, part (bare item) = part item) (items : List α) :
    ofList part (items.map bare) = ofList part items := by
  simp only [ofList, List.length_map, List.flatMap_map, same]

theorem Fingerprint.ofNodes_map {α : Type} {part : α → Fingerprint} {bare : α → α}
    (same : ∀ item, part (bare item) = part item) (nodes : List (Node α)) :
    ofNodes part (nodes.map (·.bare bare)) = ofNodes part nodes :=
  ofList_map (fun node => same node.value) nodes

theorem Fingerprint.ofOption_map {α : Type} {part : α → Fingerprint} {bare : α → α}
    (same : ∀ value, part (bare value) = part value) (option : Option α) :
    ofOption part (option.map bare) = ofOption part option := by
  cases option <;> simp [ofOption, same]

@[simp]
theorem TypeReference.fingerprint_bare (reference : TypeReference) :
    reference.bare.fingerprint = reference.fingerprint := by
  induction reference with
  | named name | nonNullNamed name => rfl
  | list item ih | nonNullList item ih => rw [bare, fingerprint, fingerprint, ih]

mutual

@[simp]
theorem Value.fingerprint_bare (value : Value) : value.bare.fingerprint = value.fingerprint := by
  cases value with
  | null | string text | float digits | int digits | boolean value => rfl
  | enumValue name | variableReference name => rfl
  | list items =>
      rw [bare, fingerprint, fingerprint, Value.itemFingerprints_bareItems items,
        Value.bareItems_eq, List.length_map, List.length_map]
  | object fields =>
      rw [bare, fingerprint, fingerprint, Value.fieldFingerprints_bareFields fields,
        Value.bareFields_eq, List.length_map, List.length_map]

theorem Value.itemFingerprints_bareItems (items : List (Node Value)) :
    Value.itemFingerprints (Value.bareItems items) = Value.itemFingerprints items := by
  cases items with
  | nil => rfl
  | cons first rest =>
      obtain ⟨_, _, item⟩ := first
      rw [bareItems, itemFingerprints, itemFingerprints, Value.fingerprint_bare item,
        Value.itemFingerprints_bareItems rest]

theorem Value.fieldFingerprints_bareFields (fields : List (Name × Node Value)) :
    Value.fieldFingerprints (Value.bareFields fields) = Value.fieldFingerprints fields := by
  cases fields with
  | nil => rfl
  | cons first rest =>
      obtain ⟨name, _, _, value⟩ := first
      rw [bareFields, fieldFingerprints, fieldFingerprints, Name.fingerprint_bare,
        Value.fingerprint_bare value, Value.fieldFingerprints_bareFields rest]

end

@[simp]
theorem Node.value_bare {α : Type} (bare : α → α) (node : Node α) :
    (node.bare bare).value = bare node.value := rfl

@[simp]
theorem Argument.fingerprint_bare (argument : Argument) :
    argument.bare.fingerprint = argument.fingerprint := by
  simp [fingerprint, bare]

@[simp]
theorem Directive.fingerprint_bare (directive : Directive) :
    directive.bare.fingerprint = directive.fingerprint := by
  simp [fingerprint, bare, ofNodes_map Argument.fingerprint_bare]

@[simp]
theorem Directives.fingerprint_bare (directives : Directives) :
    Directives.fingerprint (Directives.bare directives) = Directives.fingerprint directives :=
  ofNodes_map Directive.fingerprint_bare directives

theorem InputValueDefinition.fingerprint_bare (definition : InputValueDefinition) :
    definition.bare.fingerprint = definition.fingerprint := by
  have default : ofOption (fun default : Node Value => default.value.fingerprint)
        (definition.default.map (·.bare Value.bare)) =
      ofOption (fun default => default.value.fingerprint) definition.default :=
    ofOption_map (fun node => Value.fingerprint_bare node.value) _
  simp [fingerprint, bare, default]

theorem FieldDefinition.fingerprint_bare (definition : FieldDefinition) :
    definition.bare.fingerprint = definition.fingerprint := by
  simp [fingerprint, bare, ofNodes_map InputValueDefinition.fingerprint_bare]

theorem EnumValueDefinition.fingerprint_bare (definition : EnumValueDefinition) :
    definition.bare.fingerprint = definition.fingerprint := by
  simp [fingerprint, bare]

theorem TypeDefinition.fingerprint_bare (definition : TypeDefinition) :
    definition.bare.fingerprint = definition.fingerprint := by
  cases definition with
  | scalar definition =>
      simp [fingerprint, bare, ScalarDefinition.fingerprint, ScalarDefinition.bare]
  | object definition | interface definition =>
      simp [fingerprint, bare, ObjectLikeDefinition.fingerprint, ObjectLikeDefinition.bare,
        ofList_map Name.fingerprint_bare, ofNodes_map FieldDefinition.fingerprint_bare]
  | union definition =>
      simp [fingerprint, bare, UnionDefinition.fingerprint, UnionDefinition.bare,
        ofList_map Name.fingerprint_bare]
  | enum definition =>
      simp [fingerprint, bare, EnumDefinition.fingerprint, EnumDefinition.bare,
        ofNodes_map EnumValueDefinition.fingerprint_bare]
  | inputObject definition =>
      simp [fingerprint, bare, InputObjectDefinition.fingerprint, InputObjectDefinition.bare,
        ofNodes_map InputValueDefinition.fingerprint_bare]

/-- **A fingerprint does not tell of places.** -/
theorem Definition.fingerprint_bare (definition : Definition) :
    definition.bare.fingerprint = definition.fingerprint := by
  cases definition with
  | directive definition =>
      simp [fingerprint, bare, DirectiveDefinition.fingerprint, DirectiveDefinition.bare,
        ofNodes_map InputValueDefinition.fingerprint_bare]
  | type definition => rw [bare, fingerprint, fingerprint, TypeDefinition.fingerprint_bare]
  | objectExtension extension =>
      simp [fingerprint, bare, ObjectExtension.fingerprint, ObjectExtension.bare,
        ofList_map Name.fingerprint_bare, ofNodes_map FieldDefinition.fingerprint_bare]
  | otherExtension extension => rfl
  | unrelated definition =>
      rw [bare, fingerprint, fingerprint, Node.value_bare]
      cases definition.value with
      | operation name =>
          rw [UnrelatedDefinition.bare, UnrelatedDefinition.fingerprint,
            UnrelatedDefinition.fingerprint, ofOption_map Name.fingerprint_bare]
      | fragment name | schema | schemaExtension => rfl

/-- **Equal definitions have the same fingerprint.** -/
theorem Definition.fingerprint_eq_of_beq {memory : Memory} {left right : Definition}
    (left_in : left.IsIn memory) (right_in : right.IsIn memory) (equal : (left == right) = true) :
    left.fingerprint = right.fingerprint := by
  have bare_eq := ((Definition.compares memory).iff left_in right_in).1 equal
  rw [← left.fingerprint_bare, bare_eq, right.fingerprint_bare]

end SchemaGraft
