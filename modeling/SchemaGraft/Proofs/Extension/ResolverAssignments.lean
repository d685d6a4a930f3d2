import Mathlib.Data.List.Induction
import SchemaGraft.Proofs.Extension.Grounds
import SchemaGraft.Proofs.Extension.Sharing
import SchemaGraft.Proofs.Extension.TwoRuns

/-!
# What resolvers have an effect on

Users assign resolvers by calls, one after the other (`ResolverCall`). What the calls have an effect
on is the resolvers of the fields that a document adds, and nothing else.

**No interference.** One schema is extended by one document twice, after any calls. Either both
extensions are rejected for the same reason, or both succeed. Then what they give differs in the
numbers of the runs and in resolvers at most (`Schema.shape`), and not in the resolvers of fields
that were there before.

**Effect.** A field that is added gets the resolver of the last call for it, or else that of the
last call for all other fields (`ResolverCall.last?`).
-/

set_option autoImplicit false

namespace SchemaGraft

/-! ## Calls -/

/-- One step of assigning resolvers. -/
inductive ResolverCall where
  /-- Assigns a resolver to a single field. -/
  | field (type field : Name) (resolver : Resolver)
  /-- Assigns a resolver to all fields that get none of their own. -/
  | fallback (resolver : Resolver)

namespace ResolverCall

/-- What a call makes of an assignment. -/
def apply (assignment : ResolverAssignment) : ResolverCall → ResolverAssignment
  | .field itsType itsField resolver => assignment.assign itsType itsField resolver
  | .fallback resolver => assignment.withFallback resolver

/-- The assignment that calls lead to, one after the other. -/
def assignment (calls : List ResolverCall) : ResolverAssignment := calls.foldl apply .none

/-- The resolver that a call assigns to a field by its name. -/
def ofField? (type field : String) : ResolverCall → Option Resolver
  | .field itsType itsField resolver =>
    if itsType.text == type && itsField.text == field then some resolver else none
  | .fallback _ => none

/-- The resolver that a call assigns to all fields that get none of their own. -/
def ofOthers? : ResolverCall → Option Resolver
  | .field _ _ _ => none
  | .fallback resolver => some resolver

/-- The resolver of the last call for a field, or else of the last call for all others. -/
def last? (calls : List ResolverCall) (type field : String) : Option Resolver :=
  (calls.reverse.findSome? (ofField? type field)).or (calls.reverse.findSome? ofOthers?)

theorem assignment_append (calls : List ResolverCall) (call : ResolverCall) :
    assignment (calls ++ [call]) = apply (assignment calls) call := by
  rw [assignment, List.foldl_append]
  rfl

theorem fallback_assignment (calls : List ResolverCall) :
    (assignment calls).fallback = calls.reverse.findSome? ofOthers? := by
  induction calls using List.reverseRecOn with
  | nil => rfl
  | append_singleton calls call ih =>
      rw [assignment_append, List.reverse_append, List.reverse_singleton, List.singleton_append,
        List.findSome?_cons, ← ih]
      cases call <;> rfl

theorem find?_assignment (calls : List ResolverCall) (type field : Name) :
    ((assignment calls).fields.find? fun entry =>
        entry.type == type && entry.field == field).map (·.resolver) =
      calls.reverse.findSome? (ofField? type.text field.text) := by
  induction calls using List.reverseRecOn with
  | nil => rfl
  | append_singleton calls call ih =>
      rw [assignment_append, List.reverse_append, List.reverse_singleton, List.singleton_append,
        List.findSome?_cons, ← ih]
      cases call with
      | fallback resolver => rfl
      | field itsType itsField resolver =>
          have same : (itsType == type && itsField == field) =
              (itsType.text == type.text && itsField.text == field.text) := rfl
          simp only [apply, ResolverAssignment.assign, List.find?_cons, ofField?, same]
          cases itsType.text == type.text && itsField.text == field.text <;> rfl

/-- **The last call counts**, and a call for a single field counts before one for all others. -/
theorem resolverOf_assignment (calls : List ResolverCall) (type field : Name) :
    (assignment calls).resolverOf type field = last? calls type.text field.text := by
  rw [ResolverAssignment.resolverOf, find?_assignment, fallback_assignment, last?]

end ResolverCall

/-! ## Fields that are added -/

section Added

variable {run : ExtensionRun} {base merged : Schema} {definitions : List Definition}

/-- A field among those that are added under a name has the resolver that is assigned to it. -/
theorem exists_resolver_of_mem_fieldEntries {key type name : Name}
    {fields : List (Node FieldDefinition)} {node : Node Field}
    (member : (name, node) ∈ fieldEntries run key type fields) :
    node.value.resolver = run.resolvers.resolverOf type name := by
  obtain ⟨definition, _, same⟩ := List.mem_map.1 member
  cases same
  rfl

/-- A field is found in a type if it is among the entries under its name. -/
theorem Schema.field?_eq_some_iff {schema : Schema} {type field : String} {node : Node Field} :
    schema.field? type field = some node ↔
      ∃ stored fields, schema.types.get? (.plain type) = some stored ∧
        stored.fields? = some fields ∧ fields.get? (.plain field) = some node := by
  simp only [Schema.field?, Schema.type?, Option.bind_eq_bind, Option.bind_eq_some_iff]
  constructor
  · rintro ⟨stored, known, fields, itsFields, found⟩
    exact ⟨stored, fields, known, itsFields, found⟩
  · rintro ⟨stored, fields, known, itsFields, found⟩
    exact ⟨stored, known, fields, itsFields, found⟩

/-- **A field that a merge adds has the resolver that is assigned to it.** -/
theorem Schema.IsMerge.resolver_of_added (admits : base.Admits definitions)
    (isMerge : Schema.IsMerge run base definitions merged) (own : base.HasOwnNames)
    {type field : String} {node : Node Field} (absent : base.field? type field = none)
    (found : merged.field? type field = some node) :
    ∃ itsType itsField : Name, itsType.text = type ∧ itsField.text = field ∧
      node.value.resolver = run.resolvers.resolverOf itsType itsField := by
  obtain ⟨stored, fields, known, itsFields, here⟩ := Schema.field?_eq_some_iff.1 found
  obtain ⟨name, listed, same⟩ := (OrderedMap.get?_eq_some_iff _ _ _).1 here
  have named : name.text = field := Name.beq_iff_text_eq.1 same
  obtain ⟨kept, _⟩ | ⟨object, extended, target, _, rfl, extension⟩ | ⟨definition, _, same, makes⟩ :=
    isMerge.type_cases admits known
  · rw [Schema.field?_eq_some_iff.2 ⟨stored, fields, kept, itsFields, here⟩] at absent
    cases absent
  · cases itsFields
    rw [extension.fields, List.mem_append] at listed
    rcases listed with before | added
    · have present := (OrderedMap.get?_eq_some_iff object.value.fields _ _).2 ⟨name, before, same⟩
      rw [Schema.field?_eq_some_iff.2 ⟨_, _, target, rfl, present⟩] at absent
      cases absent
    · exact ⟨object.value.name, name, own _ _ target, named,
        exists_resolver_of_mem_fieldEntries added⟩
  · have typed : definition.name.text = type := Name.beq_iff_text_eq.1 same
    have members := makes.members
    cases definition <;> cases stored <;> first | exact members.elim | cases itsFields
    case object.object.refl stored | interface.interface.refl stored =>
      have entries : stored.value.fields.entries = _ := members.fields
      rw [entries] at listed
      exact ⟨_, name, typed, named, exists_resolver_of_mem_fieldEntries listed⟩

end Added

/-! ## Two extensions -/

/-- Nothing restricts what may be asked for. -/
theorem Build.asksOnly_true (plan : ExtensionPlan) : Build.AsksOnly (fun _ => True) plan where
  extended := fun _ _ _ _ _ => trivial
  types := fun _ _ _ => trivial
  directives := fun _ _ _ _ => trivial
  keys := fun _ _ => trivial

/-- Plans are carried out alike whatever the resolvers are. -/
theorem Schema.map_shape_carryOut (first second : ExtensionRun) (base : Schema)
    (document : Document) (plan : ExtensionPlan) :
    (base.carryOut first document plan).result.map Schema.shape =
      (base.carryOut second document plan).result.map Schema.shape := by
  have agree := @Build.agree_schema _ (first.context base plan) (second.context base plan) rfl rfl
    (Build.asksOnly_true plan) (base.sourcesWith document)
  have ends := agree .initial .initial rfl (fun _ _ => trivial)
  simp only [Schema.carryOut]
  unfold ExtensionRun.context at ends
  revert ends
  generalize (Build.schema ⟨first.number, base, plan, first.resolvers⟩
    (base.sourcesWith document)).run .initial = left
  generalize (Build.schema ⟨second.number, base, plan, second.resolvers⟩
    (base.sourcesWith document)).run .initial = right
  intro ends
  cases ends with
  | ok results _ _ => exact congrArg Except.ok results.1
  | error _ => rfl

/-- **An extension goes alike whatever the resolvers are.** -/
theorem Schema.map_shape_extend (first second : ExtensionRun) (base : Schema)
    (document : Document) :
    (base.extend first document).result.map ExtendedSchema.shape =
      (base.extend second document).result.map ExtendedSchema.shape := by
  unfold Schema.extend
  cases ExtensionPlan.ofDefinitions base document.definitions with
  | error rejection => rfl
  | ok plan =>
      have changed : ∀ result : Except Rejection Schema,
          (result.map .changed).map ExtendedSchema.shape = (result.map Schema.shape).map .changed :=
        fun result => by cases result <;> rfl
      by_cases empty : plan.isEmpty = true
      · simp only [empty, if_true]
      · simp only [empty]
        show Except.map _ (Except.map _ _) = Except.map _ (Except.map _ _)
        rw [changed, changed, Schema.map_shape_carryOut first second]

/-- What calls have an effect on when a schema is extended. -/
structure Schema.TakesResolvers (calls : List ResolverCall) (base extended : Schema) : Prop where
  /-- A field that was there stays the node that it was, with its resolver, even if a call names
  it. -/
  kept : ∀ {type field : String} {node : Node Field}, base.field? type field = some node →
    extended.field? type field = some node
  /-- A field that is added has the resolver of the last call for it, or else of the last call for
  all others, or else none. -/
  added : ∀ {type field : String} {node : Node Field}, base.field? type field = none →
    extended.field? type field = some node →
    node.value.resolver = ResolverCall.last? calls type field

/-- **Resolvers do not interfere with anything else.** Whatever calls come before an extension, it
is rejected for the same reason or gives a schema of the same shape, and the calls have an effect on
the fields that are added. -/
theorem Schema.extend_resolvers {base : Schema} (reachable : base.Reachable) (document : Document)
    (number other : Nat) (first second : List ResolverCall) :
    (∀ rejection,
      (base.extend ⟨number, ResolverCall.assignment first⟩ document).result = .error rejection ↔
      (base.extend ⟨other, ResolverCall.assignment second⟩ document).result = .error rejection) ∧
    (∀ left right,
      (base.extend ⟨number, ResolverCall.assignment first⟩ document).result = .ok left →
      (base.extend ⟨other, ResolverCall.assignment second⟩ document).result = .ok right →
      left.shape = right.shape) ∧
    ∀ extended,
      (base.extend ⟨number, ResolverCall.assignment first⟩ document).result = .ok extended →
      Schema.TakesResolvers first base (extended.over base) := by
  have alike := Schema.map_shape_extend ⟨number, ResolverCall.assignment first⟩
    ⟨other, ResolverCall.assignment second⟩ base document
  refine ⟨fun rejection => ?_, fun left right leftward rightward => ?_, fun extended succeeds => ?_⟩
  · cases leftward : (base.extend ⟨number, ResolverCall.assignment first⟩ document).result <;>
      cases rightward : (base.extend ⟨other, ResolverCall.assignment second⟩ document).result <;>
      rw [leftward, rightward] at alike
    case error.error => rw [Except.error.inj alike]
    case error.ok => cases alike
    case ok.error => cases alike
    case ok.ok => exact ⟨nofun, nofun⟩
  · rw [leftward, rightward] at alike
    exact Except.ok.inj alike
  · have spec := Schema.extend_spec ⟨number, ResolverCall.assignment first⟩ base document
    rw [succeeds] at spec
    obtain ⟨admits, isMerge, _⟩ := spec
    refine ⟨isMerge.field?_of_base admits, fun absent found => ?_⟩
    obtain ⟨itsType, itsField, rfl, rfl, resolved⟩ :=
      isMerge.resolver_of_added admits reachable.hasOwnNames absent found
    rw [resolved, ResolverCall.resolverOf_assignment]

/-- Calls before the orchard is read: one for a field of the garden and two for one that is new. -/
def orchardCalls : List ResolverCall :=
  [.field (.plain "Tree") (.plain "size") ⟨2, "first"⟩, .fallback ⟨3, "general"⟩,
    .field (.plain "Tree") (.plain "crop") ⟨4, "late"⟩,
    .field (.plain "Tree") (.plain "size") ⟨5, "last"⟩]

/-- The orchard is added to a garden with resolvers, after these calls and without any. -/
theorem Schema.extend_resolvers_orchard :
    ∃ planted, (Schema.builtIn.extend ⟨1, ResolverCall.assignment [.fallback ⟨1, "planted"⟩]⟩
        (Document.parse {} (.document 1) gardenSource).document).result = .ok planted ∧
      let garden := planted.over Schema.builtIn
      let orchard := (Document.parse {} (.document 2) orchardSource).document
      ∃ left right,
        (garden.extend ⟨2, ResolverCall.assignment orchardCalls⟩ orchard).result = .ok left ∧
        (garden.extend ⟨3, ResolverCall.assignment []⟩ orchard).result = .ok right ∧
        left.shape = right.shape ∧
        (∃ crop, garden.field? "Tree" "crop" = some crop ∧
          (left.over garden).field? "Tree" "crop" = some crop ∧
          crop.value.resolver = some ⟨1, "planted"⟩) ∧
        (∃ size, (left.over garden).field? "Tree" "size" = some size ∧
          size.value.resolver = some ⟨5, "last"⟩) ∧
        ∃ size, (left.over garden).field? "Tall" "size" = some size ∧
          size.value.resolver = some ⟨3, "general"⟩ := by
  -- Only which fields there are is computed. What resolvers they have is what the theorem says.
  have evaluated : (Schema.builtIn.field? "Tree" "crop").isNone ∧
      ∃ planted ∈ (Schema.builtIn.extend ⟨1, ResolverCall.assignment [.fallback ⟨1, "planted"⟩]⟩
        (Document.parse {} (.document 1) gardenSource).document).result.toOption,
      let garden := planted.over Schema.builtIn
      let orchard := (Document.parse {} (.document 2) orchardSource).document
      (garden.field? "Tree" "crop").isSome ∧ (garden.field? "Tree" "size").isNone ∧
      (garden.field? "Tall" "size").isNone ∧
      (∃ left ∈ (garden.extend ⟨2, ResolverCall.assignment orchardCalls⟩ orchard).result.toOption,
        ((left.over garden).field? "Tree" "size").isSome ∧
        ((left.over garden).field? "Tall" "size").isSome) ∧
      (garden.extend ⟨3, ResolverCall.assignment []⟩ orchard).result.toOption.isSome := by
    rw [← BuiltIn.schema_eq,
      Document.parse_literal _ _ gardenSource (append_eq_ofList rfl rfl),
      Document.parse_literal _ _ orchardSource rfl]
    decide +kernel
  simp only [Option.isNone_iff_eq_none, Option.isSome_iff_exists] at evaluated
  obtain ⟨unknown, planted, given, ⟨crop, stored⟩, noSize, noTall,
    ⟨left, leftGiven, ⟨size, sizeFound⟩, ⟨tall, tallFound⟩⟩, ⟨right, rightGiven⟩⟩ := evaluated
  have planting := eq_ok_of_mem_toOption given
  have leftward := eq_ok_of_mem_toOption leftGiven
  have rightward := eq_ok_of_mem_toOption rightGiven
  obtain ⟨_, addedFirst⟩ := (Schema.extend_resolvers .builtIn _ 1 1 _ []).2.2 planted planting
  obtain ⟨_, shapes, takes⟩ := Schema.extend_resolvers (.extend .builtIn planting)
    (Document.parse {} (.document 2) orchardSource).document 2 3 orchardCalls []
  obtain ⟨kept, added⟩ := takes left leftward
  exact ⟨planted, planting, left, right, leftward, rightward, shapes left right leftward rightward,
    ⟨crop, stored, kept stored, addedFirst unknown stored⟩,
    ⟨size, sizeFound, added noSize sizeFound⟩, ⟨tall, tallFound, added noTall tallFound⟩⟩

end SchemaGraft
