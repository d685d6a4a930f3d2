import SchemaGraft.Proofs.Extension.Assembly

/-!
# When an extension succeeds and what it gives

The rules of extension speak of the document as a whole. The definitions are planned one after the
other and the types are built in the order in which they happen to be asked for. Yet the rules are
exactly what decides: an extension succeeds if and only if the schema admits the document. What it
gives is then the merge of the two (`Schema.extend_spec`).

**The plan.** In a plan, the rules are that every extended type and every new type fits and that the
new directives do (`ExtensionPlan.Fits`).

**The build.** A build succeeds if these fit, and is rejected only if one of them does not
(`Schema.carryOut_spec`).
-/

set_option autoImplicit false

namespace SchemaGraft

/-! ## Rules for the parts of a plan -/

section Kinds

variable {base : Schema} {definitions : List Definition} {plan : ExtensionPlan}

/-- **Building declares the kinds that names have once the definitions are added.** -/
theorem ExtensionPlan.IsFor.declaredKind?_eq {context : BuildContext}
    (isFor : context.plan.IsFor context.base definitions) :
    Build.declaredKind? context = context.base.kindWith? definitions := by
  funext name
  unfold Build.declaredKind? Schema.kindWith?
  rw [isFor.get?_newTypes]
  split
  · rename_i planned
    obtain ⟨extended, planned⟩ := (OrderedMap.contains_iff_exists_value _ _).1 planned
    rw [(isFor.extended_eq planned).1]
    rfl
  · rfl

/-- All parts of a plan fit: the new directives have new names, and types and directives fit the
kinds that names have in the end. -/
structure ExtensionPlan.Fits (base : Schema) (definitions : List Definition)
    (plan : ExtensionPlan) : Prop where
  directives : AreFresh base.directives.keys
    ((Definition.directivesAmong definitions).map (·.value.name))
  extended : ∀ {name extended}, plan.extended.get? name = some extended →
    extended.Fits (base.kindWith? definitions)
  types : ∀ definition ∈ Definition.typesAmong definitions,
    definition.Fits (base.kindWith? definitions)
  arguments : ∀ definition ∈ Definition.directivesAmong definitions,
    ∀ reference ∈ definition.directiveReferences, reference.IsMet (base.kindWith? definitions)

/-- Where the rules hold, all parts of the plan fit. -/
theorem ExtensionPlan.IsFor.fits_of_admits (isFor : plan.IsFor base definitions)
    (admits : base.Admits definitions) : plan.Fits base definitions where
  directives := admits.directives
  extended := by
    intro name extended planned
    obtain ⟨found, clauses, _⟩ := isFor.extended_eq planned
    exact
      { interfaces := clauses ▸ admits.extensionInterfaces found
        fields := clauses ▸ admits.extensionFields found
        references := by
          intro clause member
          rw [clauses, Definition.mem_clausesFor_iff, Definition.mem_clausesAmong_iff] at member
          rw [forall_clauseReferences_iff]
          exact forall_clauseReferences_iff.1 (admits.references _ member.1) }
  types := by
    intro definition member
    exact
      { interfaces := admits.interfaces definition member
        members := admits.members definition member
        references := admits.references _ (Definition.mem_typesAmong_iff.1 member) }
  arguments := fun _ member => admits.references _ (Definition.mem_directivesAmong_iff.1 member)

/-- Where all parts of the plan fit, the rules hold. -/
theorem ExtensionPlan.IsFor.admits_of_fits (isFor : plan.IsFor base definitions)
    (fits : plan.Fits base definitions) : base.Admits definitions := by
  have extension_fits : ∀ {name type}, base.types.get? name = some (.object type) →
      Definition.clausesFor definitions name ≠ [] →
      ExtendedObject.Fits (base.kindWith? definitions)
        ⟨type, Definition.clausesFor definitions name⟩ := by
    intro name type found targeted
    obtain ⟨stored, same, planned⟩ := isFor.extended targeted
    rw [found] at same
    cases same
    exact fits.extended planned
  have listed : ∀ {clause}, clause ∈ Definition.clausesAmong definitions →
      clause ∈ Definition.clausesFor definitions clause.value.name :=
    fun member => Definition.mem_clausesFor_iff.2 ⟨member, BEq.rfl⟩
  exact
    { keywords := isFor.keywords
      targets := by
        intro clause member
        obtain ⟨type, found, _⟩ := isFor.extended (List.ne_nil_of_mem (listed member))
        exact ⟨type, found⟩
      types := isFor.fresh
      directives := fits.directives
      extensionFields := fun found =>
        areFresh_flatMap_of_ne_nil fun some => (extension_fits found some).fields
      extensionInterfaces := fun found =>
        areFresh_flatMap_of_ne_nil fun some => (extension_fits found some).interfaces
      members := fun definition member => (fits.types definition member).members
      interfaces := fun definition member => (fits.types definition member).interfaces
      references := by
        intro definition member
        cases definition with
        | objectExtension clause =>
            have targeted := listed (Definition.mem_clausesAmong_iff.2 member)
            obtain ⟨type, found, planned⟩ := isFor.extended (List.ne_nil_of_mem targeted)
            have met := (fits.extended planned).references clause targeted
            rw [forall_clauseReferences_iff] at met
            exact forall_clauseReferences_iff.2 met
        | otherExtension extension => simp [Definition.references]
        | type definition =>
            exact (fits.types definition (Definition.mem_typesAmong_iff.2 member)).references
        | directive definition =>
            exact fits.arguments definition (Definition.mem_directivesAmong_iff.2 member)
        | unrelated definition => simp [Definition.references] }

/-- A build is rejected only if the rules are broken. -/
theorem BuildContext.IsRejected.not_admits {context : BuildContext}
    (isFor : context.plan.IsFor context.base definitions) {rejection : Rejection}
    (rejected : context.IsRejected rejection) : ¬ context.base.Admits definitions := by
  intro admits
  obtain ⟨directives, extended, types, arguments⟩ := isFor.fits_of_admits admits
  cases rejected with
  | extended planned reason =>
      rw [isFor.declaredKind?_eq] at reason
      exact reason.not_fits (extended planned)
  | added planned reason =>
      rw [isFor.declaredKind?_eq] at reason
      rw [isFor.get?_newTypes] at planned
      exact reason.not_fits (types _ (List.mem_of_find?_eq_some planned))
  | directive repeats =>
      refine repeats.not_areFresh ?_
      rw [isFor.newDirectives, map_name_memberMentions, List.map_map]
      exact directives
  | directiveReference member unmet =>
      rw [isFor.declaredKind?_eq] at unmet
      exact unmet.not_isMet (arguments _ (isFor.newDirectives ▸ member))

/-! ## Plans that do nothing -/

/-- Where the plan is empty, the definitions add nothing at all. -/
theorem ExtensionPlan.IsFor.of_isEmpty (isFor : plan.IsFor base definitions)
    (empty : plan.isEmpty = true) :
    (∀ name, Definition.clausesFor definitions name = []) ∧
      Definition.typesAmong definitions = [] ∧ Definition.directivesAmong definitions = [] := by
  simp only [ExtensionPlan.isEmpty, OrderedMap.isEmpty, Bool.and_eq_true,
    List.isEmpty_iff] at empty
  obtain ⟨⟨extended, types⟩, directives⟩ := empty
  refine ⟨?_, ?_, isFor.newDirectives ▸ directives⟩
  · intro name
    by_contra some
    obtain ⟨type, _, planned⟩ := isFor.extended some
    rw [OrderedMap.get?, OrderedMap.find?, extended] at planned
    cases planned
  · rw [isFor.newTypes, List.map_eq_nil_iff] at types
    exact types

theorem ExtensionPlan.IsFor.admits_of_isEmpty (isFor : plan.IsFor base definitions)
    (empty : plan.isEmpty = true) : base.Admits definitions := by
  obtain ⟨clauses, types, directives⟩ := isFor.of_isEmpty empty
  refine isFor.admits_of_fits ?_
  exact
    { directives := by simp [directives, areFresh_nil]
      extended := fun planned => absurd (clauses _) (isFor.extended_eq planned).2.2
      types := by simp [types]
      arguments := by simp [directives] }

theorem ExtensionPlan.IsFor.isMerge_of_isEmpty (isFor : plan.IsFor base definitions)
    (empty : plan.isEmpty = true) (run : ExtensionRun) :
    Schema.IsMerge run base definitions base := by
  obtain ⟨clauses, types, directives⟩ := isFor.of_isEmpty empty
  exact
    { typeNames := by simp [types]
      kept := fun found _ => found
      extended := fun _ some => absurd (clauses _) some
      added := by simp [types]
      directives := by simp [directives]
      roots := rfl }

end Kinds

/-! ## Carrying out a plan -/

/-- What building takes from a run. -/
def ExtensionRun.context (run : ExtensionRun) (base : Schema) (plan : ExtensionPlan) :
    BuildContext :=
  ⟨run.number, base, plan, run.resolvers⟩

/-- All parts of a plan fit that a build goes through. -/
theorem Build.Gives.admits {context : BuildContext} {definitions : List Definition}
    (isFor : context.plan.IsFor context.base definitions) {sources : SourceMap} {schema : Schema}
    {state : BuildState} (gives : Build.Gives context sources schema state) :
    context.base.Admits definitions := by
  have kinds := isFor.declaredKind?_eq
  refine isFor.admits_of_fits ?_
  exact
    { directives := by
        have fresh := gives.directives.fresh
        rw [isFor.newDirectives, Build.directiveEntries, List.map_map] at fresh
        exact fresh
      extended := by
        intro name extended planned
        obtain ⟨key, type, _, _, realizes⟩ :=
          gives.complete.realized (gives.complete.extended planned)
        obtain ⟨_, _, fits, _⟩ := realizes.eq_of_extended planned
        rwa [kinds] at fits
      types := by
        intro definition member
        obtain ⟨absent, unplanned, planned⟩ := Build.absent_of_added isFor member
        obtain ⟨key, type, _, _, realizes⟩ :=
          gives.complete.realized (gives.complete.added planned)
        rw [← kinds]
        exact (realizes.eq_of_added unplanned absent planned).1
      arguments := by
        rw [← kinds, ← isFor.newDirectives]
        exact gives.references }

/-- **What carrying out a plan gives.** -/
theorem Schema.carryOut_spec (run : ExtensionRun) {base : Schema} {document : Document}
    {plan : ExtensionPlan} (isFor : plan.IsFor base document.definitions) :
    match (base.carryOut run document plan).result with
    | .ok schema => base.Admits document.definitions ∧
        Schema.IsMerge run base document.definitions schema ∧
        schema.sources = base.sourcesWith document
    | .error rejection => (run.context base plan).IsRejected rejection := by
  have built := Build.run_schema (run.context base plan) (base.sourcesWith document)
  unfold ExtensionRun.context at built ⊢
  simp only [Schema.carryOut]
  cases result : (Build.schema ⟨run.number, base, plan, run.resolvers⟩
      (base.sourcesWith document)).run .initial with
  | error rejection _ =>
      rw [result] at built
      exact built
  | ok schema state =>
      rw [result] at built
      exact ⟨built.admits isFor, Build.isMerge_of_gives isFor built, built.sources⟩

/-! ## Extending a schema -/

/-- What the schema is after an extension. -/
def ExtendedSchema.over (base : Schema) : ExtendedSchema → Schema
  | .unchanged => base
  | .changed schema => schema

/-- What carrying out a plan gives is what a build gives that succeeds. -/
theorem Schema.exists_build_of_carryOut {run : ExtensionRun} {base schema : Schema}
    {document : Document} {plan : ExtensionPlan}
    (carried : (base.carryOut run document plan).result = .ok schema) :
    ∃ state, (Build.schema (run.context base plan) (base.sourcesWith document)).run .initial =
      .ok schema state := by
  unfold ExtensionRun.context
  simp only [Schema.carryOut] at carried
  cases result : (Build.schema ⟨run.number, base, plan, run.resolvers⟩
      (base.sourcesWith document)).run .initial with
  | error rejection _ =>
      rw [result] at carried
      cases carried
  | ok built state =>
      rw [result] at carried
      cases carried
      exact ⟨state, rfl⟩

/-- What an extension gives is the schema itself, if the plan does nothing, or else what carrying
out the plan gives. -/
theorem Schema.exists_plan_of_extend {run : ExtensionRun} {base : Schema} {document : Document}
    {extended : ExtendedSchema} (succeeds : (base.extend run document).result = .ok extended) :
    ∃ plan, ExtensionPlan.ofDefinitions base document.definitions = .ok plan ∧
      (plan.isEmpty = true ∧ extended.over base = base ∨
        (base.carryOut run document plan).result = .ok (extended.over base)) := by
  unfold Schema.extend at succeeds
  cases planned : ExtensionPlan.ofDefinitions base document.definitions with
  | error rejection =>
      rw [planned] at succeeds
      cases succeeds
  | ok plan =>
      rw [planned] at succeeds
      dsimp only at succeeds
      refine ⟨plan, rfl, ?_⟩
      split at succeeds
      · rename_i empty
        cases succeeds
        exact .inl ⟨empty, rfl⟩
      · cases result : (base.carryOut run document plan).result with
        | error rejection =>
            rw [result] at succeeds
            cases succeeds
        | ok merged =>
            rw [result] at succeeds
            cases succeeds
            exact .inr rfl

/-- **What extending a schema gives.** -/
theorem Schema.extend_spec (run : ExtensionRun) (base : Schema) (document : Document) :
    match (base.extend run document).result with
    | .ok extended => base.Admits document.definitions ∧
        Schema.IsMerge run base document.definitions (extended.over base) ∧
        ∀ schema, extended = .changed schema → schema.sources = base.sourcesWith document
    | .error _ => ¬ base.Admits document.definitions := by
  unfold Schema.extend
  cases planned : ExtensionPlan.ofDefinitions base document.definitions with
  | error rejection => exact ExtensionPlan.not_admits_of_ofDefinitions planned
  | ok plan =>
      have isFor := ExtensionPlan.isFor_of_ofDefinitions planned
      by_cases empty : plan.isEmpty = true
      · simp only [empty, if_true]
        exact ⟨isFor.admits_of_isEmpty empty, isFor.isMerge_of_isEmpty empty run, nofun⟩
      · simp only [empty]
        have carried := Schema.carryOut_spec run isFor
        cases result : (base.carryOut run document plan).result with
        | error rejection =>
            rw [result] at carried
            exact BuildContext.IsRejected.not_admits isFor carried
        | ok schema =>
            rw [result] at carried
            obtain ⟨admits, isMerge, sources⟩ := carried
            refine ⟨admits, isMerge, ?_⟩
            rintro _ same
            cases same
            exact sources

theorem eq_ok_of_mem_toOption {ε α : Type} {result : Except ε α} {value : α}
    (member : value ∈ result.toOption) : result = .ok value := by
  cases result with
  | error _ => cases member
  | ok _ =>
      cases member
      rfl

/-- A schema can be extended by a document that it admits. -/
theorem Schema.exists_extended (run : ExtensionRun) {base : Schema} {document : Document}
    (admits : base.Admits document.definitions) :
    ∃ extended, (base.extend run document).result = .ok extended := by
  have spec := Schema.extend_spec run base document
  cases result : (base.extend run document).result with
  | error rejection =>
      rw [result] at spec
      exact absurd admits spec
  | ok extended => exact ⟨extended, rfl⟩

/-- What an extension gives is the merge of a schema and a document that it admits. -/
theorem Schema.merged_of_extended {run : ExtensionRun} {base : Schema} {document : Document}
    {extended : ExtendedSchema} (succeeds : (base.extend run document).result = .ok extended) :
    base.Admits document.definitions ∧
      Schema.IsMerge run base document.definitions (extended.over base) := by
  have spec := Schema.extend_spec run base document
  rw [succeeds] at spec
  exact ⟨spec.1, spec.2.1⟩

/-- **An extension succeeds if and only if the schema admits the document.** In which order the
definitions and types are looked at does not matter. -/
theorem Schema.extend_succeeds_iff (run : ExtensionRun) (base : Schema) (document : Document) :
    (∃ extended, (base.extend run document).result = .ok extended) ↔
      base.Admits document.definitions := by
  have spec := Schema.extend_spec run base document
  cases result : (base.extend run document).result with
  | error rejection =>
      rw [result] at spec
      refine ⟨?_, fun admits => absurd admits spec⟩
      rintro ⟨_, impossible⟩
      cases impossible
  | ok extended =>
      rw [result] at spec
      exact ⟨fun _ => spec.1, fun _ => ⟨extended, rfl⟩⟩

/-- The definition of a field without arguments. -/
def fieldNamed (name type : String) : Node FieldDefinition :=
  .ofLocation ⟨.document 0, 0, 0⟩
    ⟨none, .plain name, [], .ofLocation ⟨.document 0, 0, 0⟩ (.named (.plain type)), []⟩

/-- The schema `type Link { next: Link }`. -/
def linkSchema : Schema where
  sources := OrderedMap.empty
  directives := OrderedMap.empty
  types := OrderedMap.empty.insert (.plain "Link") (.object
    ⟨.built 0 (.type "Link"), none, none, .plain "Link", OrderedMap.empty, [],
      OrderedMap.empty.insert (.plain "next")
        ((fieldNamed "next" "Link").addedField ⟨0, .none⟩ (.plain "Link") (.plain "Link"))⟩)
  roots := .none

/-- The document `type Tree { root: Link } extend type Link { tree: Tree }`. -/
def treeDocument : Document where
  sources := OrderedMap.empty
  definitions :=
    [.type (.object (.ofLocation ⟨.document 0, 0, 0⟩
      ⟨none, .plain "Tree", [], [], [fieldNamed "root" "Link"]⟩)),
    .objectExtension (.ofLocation ⟨.document 0, 0, 0⟩
      ⟨.plain "Link", [], [], [fieldNamed "tree" "Tree"]⟩)]

/-- **A successful extension is the merge of the schema and the document.** Its files are those of
both. -/
theorem Schema.isMerge_of_extend {run : ExtensionRun} {base : Schema} {document : Document}
    {extended : ExtendedSchema} (succeeds : (base.extend run document).result = .ok extended) :
    Schema.IsMerge run base document.definitions (extended.over base) ∧
      ∀ schema, extended = .changed schema → schema.sources = base.sourcesWith document := by
  have spec := Schema.extend_spec run base document
  rw [succeeds] at spec
  exact spec.2

theorem Schema.isMerge_of_extend_tree :
    ∃ extended, (linkSchema.extend ⟨1, .none⟩ treeDocument).result = .ok extended ∧
      NameMap.texts (extended.over linkSchema).types = ["Link", "Tree"] ∧
      Schema.IsMerge ⟨1, .none⟩ linkSchema treeDocument.definitions (extended.over linkSchema) :=
  ⟨_, rfl, rfl, (Schema.isMerge_of_extend rfl).1⟩

end SchemaGraft
