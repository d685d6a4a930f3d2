import SchemaGraft.Proofs.Extension.Outcome
import SchemaGraft.Proofs.SchemaContent

/-!
# Documents that change nothing

Operations, fragments and definitions of the schema itself are passed over. A document of nothing
else leaves the plan empty, and no other document does: what is planned is never forgotten. The
schema is then given back as it is.

That is a shortcut only. Carrying out the empty plan would ask for no type, so that all types are
collected as they are in the base schema (`Build.collect_empty`), and would give a schema that
differs in its files at most (`Schema.extend_unchanged`).
-/

set_option autoImplicit false

namespace SchemaGraft

/-- The definition does nothing to a schema. -/
def Definition.IsUnrelated (definition : Definition) : Prop :=
  ∃ unrelated, definition = .unrelated unrelated

instance : ReflBEq Schema where
  rfl {schema} := by
    show (schema.directives == schema.directives && schema.types == schema.types &&
      schema.roots == schema.roots) = true
    simp

namespace ExtensionPlan

variable {base : Schema} {definitions : List Definition} {plan : ExtensionPlan}

/-- Definitions that do nothing leave a plan as it is. -/
theorem addAll_of_unrelated (plan : ExtensionPlan)
    (unrelated : ∀ definition ∈ definitions, definition.IsUnrelated) :
    plan.addAll base definitions = .ok plan := by
  induction definitions with
  | nil => rfl
  | cons definition rest ih =>
      obtain ⟨here, others⟩ := List.forall_mem_cons.1 unrelated
      obtain ⟨_, rfl⟩ := here
      exact ih others

/-- **Whatever does something to a schema is in the plan.** -/
theorem IsFor.isUnrelated_of_isEmpty (isFor : plan.IsFor base definitions)
    (empty : plan.isEmpty = true) : ∀ definition ∈ definitions, definition.IsUnrelated := by
  obtain ⟨clauses, types, directives⟩ := isFor.of_isEmpty empty
  intro definition member
  cases definition with
  | unrelated definition => exact ⟨definition, rfl⟩
  | otherExtension extension => exact absurd member (isFor.keywords extension)
  | objectExtension clause =>
      have targeted : clause ∈ Definition.clausesFor definitions clause.value.name :=
        Definition.mem_clausesFor_iff.2 ⟨Definition.mem_clausesAmong_iff.2 member, BEq.rfl⟩
      rw [clauses] at targeted
      cases targeted
  | type definition =>
      rw [← Definition.mem_typesAmong_iff, types] at member
      cases member
  | directive definition =>
      rw [← Definition.mem_directivesAmong_iff, directives] at member
      cases member

/-- **A plan is empty if and only if no definition does anything.** -/
theorem isEmpty_iff (planned : ofDefinitions base definitions = .ok plan) :
    plan.isEmpty = true ↔ ∀ definition ∈ definitions, definition.IsUnrelated := by
  refine ⟨(isFor_of_ofDefinitions planned).isUnrelated_of_isEmpty, fun unrelated => ?_⟩
  rw [ofDefinitions, addAll_of_unrelated _ unrelated] at planned
  cases planned
  rfl

end ExtensionPlan

/-- Where no type was asked for, the types are collected as they are in the base schema. -/
theorem Build.collect_empty {context : BuildContext}
    (none : context.plan.newTypes = OrderedMap.empty) :
    Build.collect context OrderedMap.empty = context.base.types := by
  have same : Build.collectedEntries context OrderedMap.empty = context.base.types.entries := by
    rw [Build.collectedEntries, none]
    exact (List.append_nil _).trans (List.map_id _)
  have distinct : (Build.collectedEntries context OrderedMap.empty).Pairwise
      fun earlier later => (earlier.1 == later.1) = false := by
    rw [same]
    exact context.base.types.distinct
  exact OrderedMap.ext ((OrderedMap.entries_ofList distinct).trans same)

/-- Carrying out the empty plan gives the same schema, with the files of the document. -/
theorem Schema.carryOut_empty (run : ExtensionRun) (base : Schema) (document : Document) :
    (base.carryOut run document .empty).result =
      .ok { base with sources := base.sourcesWith document } := by
  have collected := @Build.collect_empty (run.context base .empty) rfl
  exact congrArg (fun types => Except.ok
    { base with sources := base.sourcesWith document, types := types }) collected

/-- **A schema is given back as it is if and only if no definition of the document does anything**,
and carrying out the plan would then succeed with an equal schema: its types, directives and root
operations are the same, node for node and in the same order. -/
theorem Schema.extend_unchanged (run : ExtensionRun) (base : Schema) (document : Document) :
    ((base.extend run document).result = .ok .unchanged ↔
      ∀ definition ∈ document.definitions, definition.IsUnrelated) ∧
    ((∀ definition ∈ document.definitions, definition.IsUnrelated) →
      ∃ plan schema, ExtensionPlan.ofDefinitions base document.definitions = .ok plan ∧
        (base.carryOut run document plan).result = .ok schema ∧
        schema = { base with sources := base.sourcesWith document } ∧
        (schema == base) = true) := by
  constructor
  · unfold Schema.extend
    cases planned : ExtensionPlan.ofDefinitions base document.definitions with
    | error rejection =>
        refine iff_of_false nofun fun unrelated => ?_
        rw [ExtensionPlan.ofDefinitions, ExtensionPlan.addAll_of_unrelated _ unrelated] at planned
        cases planned
    | ok plan =>
        rw [← ExtensionPlan.isEmpty_iff planned]
        by_cases empty : plan.isEmpty = true
        · simp [empty]
        · refine iff_of_false ?_ empty
          simp only [empty]
          cases (base.carryOut run document plan).result with
          | error rejection => exact nofun
          | ok schema => exact nofun
  · intro unrelated
    exact ⟨.empty, _, ExtensionPlan.addAll_of_unrelated _ unrelated,
      base.carryOut_empty run document, rfl, (BEq.rfl : (base == base) = true)⟩

/-- The document `fragment Part on Link { next }`. -/
def partDocument : Document where
  sources := OrderedMap.empty
  definitions := [.unrelated (.ofLocation ⟨.document 0, 0, 0⟩ (.fragment (.plain "Part")))]

theorem Schema.extend_unchanged_part :
    (linkSchema.extend ⟨1, .none⟩ partDocument).result = .ok .unchanged ∧
      ∃ plan schema, ExtensionPlan.ofDefinitions linkSchema partDocument.definitions = .ok plan ∧
        (linkSchema.carryOut ⟨1, .none⟩ partDocument plan).result = .ok schema ∧
        schema = { linkSchema with sources := linkSchema.sourcesWith partDocument } ∧
        (schema == linkSchema) = true :=
  ⟨rfl, (Schema.extend_unchanged ⟨1, .none⟩ linkSchema partDocument).2
    (List.forall_mem_singleton.2 ⟨_, rfl⟩)⟩

end SchemaGraft
