import SchemaGraft.Proofs.BuiltIn
import SchemaGraft.Proofs.Extension.BeginOrder
import SchemaGraft.Proofs.Extension.Outcome

/-!
# Under which names new types are stored

A type stays under the name that asked for it first. So the key of a new type is the name with its
text in the order in which the types of a document are begun. It always has the text of the name in
the definition of the type. It is this name itself, or else one by which the document refers to the
type (`Schema.key_of_extend`), and then its place is that of the reference
(`Schema.key_of_reference`).
-/

set_option autoImplicit false

namespace SchemaGraft

namespace Build

variable {context : BuildContext} {definitions : List Definition}
  (isFor : context.plan.IsFor context.base definitions)
include isFor

/-- What is begun and has the text of a new type is the name in its definition, or else a name by
which the document refers to the type. -/
theorem eq_name_or_referred {order : List Name}
    (opens : Opens (Definition.refersTo definitions) [] (Definition.askedFirst definitions) order)
    {definition : TypeDefinition} (member : definition ∈ Definition.typesAmong definitions)
    {key : Name} (begun : key ∈ order) (same : key.text = definition.name.text) :
    key = definition.name ∨
      ∃ other ∈ definitions, ∃ reference ∈ other.references, reference.name = key := by
  rcases opens.origin begun with never | first | ⟨asking, _, referred⟩
  · cases never
  · simp only [Definition.askedFirst, List.mem_append, List.mem_flatMap, List.mem_map] at first
    rcases first with ⟨directive, listed, referred⟩ | ⟨clause, listed, rfl⟩ | ⟨other, listed, rfl⟩
    · exact .inr ⟨_, Definition.mem_directivesAmong_iff.1 listed, referred⟩
    · -- Only types of the base schema are extended, and none of them is new.
      have targeted := Definition.mem_clausesFor_iff.2 ⟨listed, BEq.rfl⟩
      obtain ⟨type, found, _⟩ := isFor.extended (List.ne_nil_of_mem targeted)
      have absent := List.find?_eq_none.1 (find?_typesAmong_of_base isFor found) _ member
      exact absurd (Name.beq_iff_text_eq.2 same.symm) absent
    · have distinct := isFor.fresh.distinct
      rw [List.map_map] at distinct
      exact .inl (congrArg _ (List.inj_on_of_nodup_map distinct listed member same))
  · exact .inr (Definition.exists_of_mem_refersTo referred)

/-- A new type is in the schema under the name under which it was begun. -/
theorem exists_key_of_gives {sources : SourceMap} {schema : Schema} {state : BuildState}
    (gives : Gives context sources schema state) {definition : TypeDefinition}
    (member : definition ∈ Definition.typesAmong definitions) :
    ∃ key ∈ schema.types.keys, key ∈ state.slots.keys ∧ key.text = definition.name.text := by
  have listed : definition.name ∈ context.plan.newTypes.keys := by
    rw [isFor.keys_newTypes]
    exact List.mem_map_of_mem member
  have fresh : AreFresh context.base.types.keys context.plan.newTypes.keys :=
    isFor.keys_newTypes ▸ isFor.fresh
  obtain ⟨key, type, built, same, _⟩ := built_of_added gives.complete listed
  refine ⟨key, ?_, ?_, same⟩
  · rw [gives.types, OrderedMap.keys, entries_collect gives.complete fresh, collectedEntries,
      List.map_append]
    have collected : (key, type) ∈ context.plan.newTypes.keys.filterMap (builtType? state.slots) :=
      List.mem_filterMap.2 ⟨_, listed, built⟩
    exact List.mem_append_right _ (List.mem_map_of_mem collected)
  · unfold builtType? at built
    split at built
    · rename_i found
      cases built
      exact List.mem_map_of_mem (List.mem_of_find?_eq_some found)
    · cases built

end Build

/-! ## The keys of new types -/

/-- **The key of a new type is the name by which the type was first asked for.** The types of a
document are begun in one order, and none twice. The schema has each new type under the name in this
order that has the text of the name in its definition. That is this name itself, or else one by
which the document refers to the type. -/
theorem Schema.key_of_extend {run : ExtensionRun} {base : Schema} {document : Document}
    {extended : ExtendedSchema} (succeeds : (base.extend run document).result = .ok extended) :
    ∃ order : List Name,
      Build.Opens (Definition.refersTo document.definitions) []
        (Definition.askedFirst document.definitions) order ∧
      (order.map (·.text)).Nodup ∧
      ∀ definition ∈ Definition.typesAmong document.definitions,
        ∃ key ∈ (extended.over base).types.keys, key ∈ order ∧ key.text = definition.name.text ∧
          (key = definition.name ∨ ∃ other ∈ document.definitions,
            ∃ reference ∈ other.references, reference.name = key) := by
  obtain ⟨plan, planned, ⟨empty, _⟩ | carried⟩ := Schema.exists_plan_of_extend succeeds
  · have isFor := ExtensionPlan.isFor_of_ofDefinitions planned
    obtain ⟨clauses, types, directives⟩ := isFor.of_isEmpty empty
    refine ⟨[], ?_, List.nodup_nil, ?_⟩
    · rw [Definition.askedFirst_of_none clauses types directives]
      exact .done
    · rw [types]
      exact fun _ member => absurd member List.not_mem_nil
  · have isFor : (run.context base plan).plan.IsFor (run.context base plan).base
        document.definitions := ExtensionPlan.isFor_of_ofDefinitions planned
    have gives := Build.run_schema (run.context base plan) (base.sourcesWith document)
    obtain ⟨state, built⟩ := Schema.exists_build_of_carryOut carried
    rw [built] at gives
    have opens := Build.opens_schema isFor (ExtensionPlan.keys_extended planned) _ built
    refine ⟨state.slots.keys, opens, opens.nodup List.nodup_nil, fun definition member => ?_⟩
    obtain ⟨key, listed, begun, same⟩ := Build.exists_key_of_gives isFor gives member
    exact ⟨key, listed, begun, same, Build.eq_name_or_referred isFor opens member begun same⟩

/-- A text in which a type refers to one that is defined behind it. -/
def forwardSource : SourceFile := ⟨"extension.graphql", "type A { b: B } type B { x: Int }"⟩

/-- What is read from this text. -/
def forwardParsed : ParsedDocument := Document.parse {} (.document 1) forwardSource

theorem Schema.key_of_extend_forward :
    ∃ extended, (Schema.builtIn.extend ⟨1, .none⟩ forwardParsed.document).result = .ok extended ∧
      (Definition.typesAmong forwardParsed.document.definitions).map (·.name.text) = ["A", "B"] ∧
      ∀ definition ∈ Definition.typesAmong forwardParsed.document.definitions,
        ∃ key ∈ (extended.over Schema.builtIn).types.keys, key.text = definition.name.text ∧
          (key = definition.name ∨ ∃ other ∈ forwardParsed.document.definitions,
            ∃ reference ∈ other.references, reference.name = key) := by
  have given :
      (Schema.builtIn.extend ⟨1, .none⟩ forwardParsed.document).result.toOption.isSome = true := by
    rw [← BuiltIn.schema_eq]
    decide +kernel
  have defined : (Definition.typesAmong forwardParsed.document.definitions).map (·.name.text) =
      ["A", "B"] := by decide +kernel
  obtain ⟨extended, becomes⟩ := Option.isSome_iff_exists.1 given
  have succeeds := eq_ok_of_mem_toOption becomes
  obtain ⟨order, _, _, keys⟩ := Schema.key_of_extend succeeds
  refine ⟨extended, succeeds, defined, fun definition member => ?_⟩
  obtain ⟨key, listed, _, same, which⟩ := keys definition member
  exact ⟨key, listed, same, which⟩

/-- A type that is referred to before its definition is stored under the name of the reference. -/
theorem Schema.key_of_reference :
    forwardParsed.errors = [] ∧
      (Definition.typesAmong forwardParsed.document.definitions).map (fun definition =>
        (definition.name.text, definition.name.location)) =
        [("A", some ⟨.document 1, 5, 6⟩), ("B", some ⟨.document 1, 21, 22⟩)] ∧
      (Schema.builtIn.extend ⟨1, .none⟩ forwardParsed.document).result.toOption.map
          (fun extended => ((extended.over Schema.builtIn).types.keys.drop 5).map fun key =>
            (key.text, key.location)) =
        some [("A", some ⟨.document 1, 5, 6⟩), ("B", some ⟨.document 1, 12, 13⟩)] := by
  rw [← BuiltIn.schema_eq]
  decide +kernel

end SchemaGraft
