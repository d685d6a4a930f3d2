import Mathlib.Data.List.Induction
import SchemaGraft.Proofs.Extension.Rules

/-!
# What planning does

A plan sorts the definitions of a document. `ExtensionPlan.IsFor` says what is in the plan of a list
of definitions: under each name that is extended, the object type of the base schema with all its
extensions in their order, then the new types and the new directives as they are written.

**Success.** Adding a definition to the plan of those before it gives the plan of both
(`ExtensionPlan.IsFor.add`), so a plan that is made of a whole document is the plan of the document
(`ExtensionPlan.isFor_of_ofDefinitions`).

**Failure.** Planning stops at a definition that cannot be added to the plan of those before it
(`ExtensionPlan.exists_add_error`). Then the rules for names are broken, whatever comes after it
(`ExtensionPlan.IsFor.not_admitsNames`).
-/

set_option autoImplicit false

namespace SchemaGraft

namespace ExtensionPlan

/-! ## The plan of definitions -/

/-- A plan is that of a list of definitions. -/
structure IsFor (base : Schema) (definitions : List Definition) (plan : ExtensionPlan) : Prop where
  keywords : ∀ extension, .otherExtension extension ∉ definitions
  extended : ∀ {name}, Definition.clausesFor definitions name ≠ [] →
    ∃ type, base.types.get? name = some (.object type) ∧
      plan.extended.get? name = some ⟨type, Definition.clausesFor definitions name⟩
  unextended : ∀ {name}, Definition.clausesFor definitions name = [] →
    plan.extended.get? name = none
  newTypes : plan.newTypes.entries =
    (Definition.typesAmong definitions).map fun definition => (definition.name, definition)
  fresh : AreFresh base.types.keys ((Definition.typesAmong definitions).map (·.name))
  newDirectives : plan.newDirectives = Definition.directivesAmong definitions

theorem isFor_empty (base : Schema) : empty.IsFor base [] where
  keywords := by simp
  extended := fun some => absurd rfl some
  unextended := fun _ => rfl
  newTypes := rfl
  fresh := areFresh_nil _
  newDirectives := rfl

variable {base : Schema} {before definitions : List Definition} {plan next : ExtensionPlan}

theorem IsFor.keys_newTypes (isFor : plan.IsFor base definitions) :
    plan.newTypes.keys = (Definition.typesAmong definitions).map (·.name) := by
  simp [OrderedMap.keys, isFor.newTypes]

theorem IsFor.get?_newTypes (isFor : plan.IsFor base definitions) (name : Name) :
    plan.newTypes.get? name = (Definition.typesAmong definitions).find? (·.name == name) := by
  simp [OrderedMap.get?, OrderedMap.find?, isFor.newTypes, List.find?_map, Function.comp_def]

/-- What is planned for a name is an object type of the base schema with all its extensions. -/
theorem IsFor.extended_eq (isFor : plan.IsFor base definitions) {name : Name}
    {extended : ExtendedObject} (planned : plan.extended.get? name = some extended) :
    base.types.get? name = some (.object extended.base) ∧
      extended.clauses = Definition.clausesFor definitions name ∧
      Definition.clausesFor definitions name ≠ [] := by
  by_cases none : Definition.clausesFor definitions name = []
  · rw [isFor.unextended none] at planned
    cases planned
  · obtain ⟨type, found, listed⟩ := isFor.extended none
    rw [planned] at listed
    cases listed
    exact ⟨found, rfl, none⟩

theorem target_eq_ok {name : Name} {location : Option Location} {type : Node ObjectLikeType}
    (found : target base name location = .ok type) :
    base.types.get? name = some (.object type) := by
  unfold target at found
  split at found
  · cases found
  · rename_i stored
    cases found
    exact stored
  · cases found

/-! ## One more definition -/

/-- What is planned for extensions stays what it is where nothing more is extended. -/
theorem IsFor.extended_append (isFor : plan.IsFor base before) {rest : List Definition}
    (no_clause : Definition.clausesAmong rest = []) {name : Name}
    (targeted : Definition.clausesFor (before ++ rest) name ≠ []) :
    ∃ type, base.types.get? name = some (.object type) ∧
      plan.extended.get? name = some ⟨type, Definition.clausesFor (before ++ rest) name⟩ := by
  rw [Definition.clausesFor_append_of_none before name no_clause] at targeted ⊢
  exact isFor.extended targeted

theorem IsFor.unextended_append (isFor : plan.IsFor base before) {rest : List Definition}
    (no_clause : Definition.clausesAmong rest = []) {name : Name}
    (untargeted : Definition.clausesFor (before ++ rest) name = []) :
    plan.extended.get? name = none := by
  rw [Definition.clausesFor_append_of_none before name no_clause] at untargeted
  exact isFor.unextended untargeted

/-- An extension joins those of its type that came before it. -/
theorem IsFor.addExtension (isFor : plan.IsFor base before) {extension : Node ObjectExtension}
    (added : plan.addExtension base extension = .ok next) :
    next.IsFor base (before ++ [.objectExtension extension]) := by
  unfold ExtensionPlan.addExtension at added
  cases aimed : target base extension.value.name extension.location with
  | error rejection =>
      rw [aimed] at added
      cases added
  | ok type =>
      rw [aimed] at added
      cases added
      have found := target_eq_ok aimed
      exact
        { keywords := by simpa using isFor.keywords
          extended := by
            intro name some
            rw [OrderedMap.get?_insert]
            rw [Definition.clausesFor_append] at some ⊢
            -- The extension is the last one of its own type and changes no other.
            by_cases same : (extension.value.name == name) = true
            · have single : Definition.clausesFor [.objectExtension extension] name =
                  [extension] := by
                simp [Definition.clausesFor, Definition.clausesAmong, same]
              rw [if_pos same, single, ← Definition.clausesFor_congr same,
                ← OrderedMap.get?_congr _ same]
              refine ⟨type, found, ?_⟩
              by_cases first : Definition.clausesFor before extension.value.name = []
              · rw [isFor.unextended first, first]
                rfl
              · obtain ⟨earlier, stored, planned⟩ := isFor.extended first
                rw [found] at stored
                cases stored
                rw [planned]
            · have single : Definition.clausesFor [.objectExtension extension] name = [] := by
                simp [Definition.clausesFor, Definition.clausesAmong, same]
              rw [single, List.append_nil] at some ⊢
              rw [if_neg same]
              exact isFor.extended some
          unextended := by
            intro name none
            rw [Definition.clausesFor_append, List.append_eq_nil_iff] at none
            obtain ⟨none, other⟩ := none
            rw [OrderedMap.get?_insert, if_neg, isFor.unextended none]
            intro same
            simp [Definition.clausesFor, Definition.clausesAmong, same] at other
          newTypes := by simpa [Definition.typesAmong] using isFor.newTypes
          fresh := by simpa [Definition.typesAmong] using isFor.fresh
          newDirectives := by simpa [Definition.directivesAmong] using isFor.newDirectives }

/-- A new type must have a name that neither the schema nor an earlier definition has. -/
theorem IsFor.addType (isFor : plan.IsFor base before) {definition : TypeDefinition}
    (added : plan.addType base definition = .ok next) :
    next.IsFor base (before ++ [.type definition]) := by
  simp only [ExtensionPlan.addType] at added
  split at added
  · cases added
  · cases added
  · rename_i absent unplanned
    cases added
    rw [OrderedMap.get?_eq_none_iff] at absent unplanned
    exact
      { keywords := by simpa using isFor.keywords
        extended := isFor.extended_append rfl
        unextended := isFor.unextended_append rfl
        newTypes := by
          rw [OrderedMap.entries_insert_of_absent definition unplanned, isFor.newTypes]
          simp [Definition.typesAmong]
        fresh := by
          have single : Definition.typesAmong [.type definition] = [definition] := rfl
          rw [Definition.typesAmong_append, single, List.map_append, areFresh_append_iff]
          refine ⟨isFor.fresh, areFresh_singleton_iff.2 ?_⟩
          rw [NameMap.contains_eq_false_iff, NameMap.texts] at absent unplanned
          rw [isFor.keys_newTypes] at unplanned
          simp_all
        newDirectives := by simpa [Definition.directivesAmong] using isFor.newDirectives }

/-- **Planning goes on from the plan of what came before.** -/
theorem IsFor.add (isFor : plan.IsFor base before) {definition : Definition}
    (added : plan.add base definition = .ok next) : next.IsFor base (before ++ [definition]) := by
  cases definition with
  | objectExtension extension => exact isFor.addExtension added
  | otherExtension extension => cases added
  | type definition => exact isFor.addType added
  | directive definition =>
      cases added
      exact
        { keywords := by simpa using isFor.keywords
          extended := isFor.extended_append rfl
          unextended := isFor.unextended_append rfl
          newTypes := by simpa [Definition.typesAmong] using isFor.newTypes
          fresh := by simpa [Definition.typesAmong] using isFor.fresh
          newDirectives := by simp [Definition.directivesAmong, isFor.newDirectives] }
  | unrelated definition =>
      cases added
      exact
        { keywords := by simpa using isFor.keywords
          extended := isFor.extended_append rfl
          unextended := isFor.unextended_append rfl
          newTypes := by simpa [Definition.typesAmong] using isFor.newTypes
          fresh := by simpa [Definition.typesAmong] using isFor.fresh
          newDirectives := by simpa [Definition.directivesAmong] using isFor.newDirectives }

/-! ## Definitions that cannot be added -/

theorem addType_eq_error {definition : TypeDefinition} {rejection : Rejection}
    (failed : plan.addType base definition = .error rejection) :
    definition.name.text ∈ (base.types.keys ++ plan.newTypes.keys).map (·.text) := by
  have named : ∀ {ν : Type} {map : NameMap ν} {previous : ν},
      map.get? definition.name = some previous → definition.name.text ∈ map.keys.map (·.text) :=
    fun found => (NameMap.contains_iff _ _).1 (OrderedMap.contains_of_get? found)
  rw [List.map_append, List.mem_append]
  simp only [ExtensionPlan.addType] at failed
  split at failed
  · rename_i found
    exact .inl (named found)
  · rename_i found
    exact .inr (named found)
  · cases failed

/-- A definition that cannot be added breaks the rules for names, whatever comes after it. -/
theorem IsFor.not_admitsNames (isFor : plan.IsFor base before) {definition : Definition}
    {rejection : Rejection} (failed : plan.add base definition = .error rejection)
    (after : List Definition) : ¬ base.AdmitsNames (before ++ definition :: after) := by
  intro admits
  cases definition with
  | objectExtension extension =>
      have clause : extension ∈
          Definition.clausesAmong (before ++ .objectExtension extension :: after) :=
        Definition.mem_clausesAmong_iff.2 (by simp)
      obtain ⟨type, found⟩ := admits.targets extension clause
      simp only [ExtensionPlan.add, ExtensionPlan.addExtension, target, found] at failed
      cases failed
  | otherExtension extension => exact admits.keywords extension (by simp)
  | type definition =>
      have fresh := admits.types
      have split : Definition.typesAmong (before ++ .type definition :: after) =
          Definition.typesAmong before ++ definition :: Definition.typesAmong after := by
        rw [Definition.typesAmong_append]
        rfl
      rw [split, List.map_append, List.map_cons, ← isFor.keys_newTypes] at fresh
      exact not_areFresh_of_split (addType_eq_error failed) fresh
  | directive definition => cases failed
  | unrelated definition => cases failed

theorem IsFor.not_admits (isFor : plan.IsFor base before) {definition : Definition}
    {rejection : Rejection} (failed : plan.add base definition = .error rejection)
    (after : List Definition) : ¬ base.Admits (before ++ definition :: after) :=
  fun admits => isFor.not_admitsNames failed after admits.names

/-! ## Whole documents -/

theorem ofDefinitions_append_singleton (base : Schema) (before : List Definition)
    (definition : Definition) :
    ofDefinitions base (before ++ [definition]) =
      (ofDefinitions base before).bind fun plan => plan.add base definition := by
  unfold ofDefinitions addAll
  rw [List.foldlM_append]
  cases before.foldlM (add base) empty with
  | error rejection => rfl
  | ok plan =>
      show [definition].foldlM (add base) plan = plan.add base definition
      rw [List.foldlM_cons]
      exact bind_pure _

/-- **The plan that is made of a document is the plan of the document.** -/
theorem isFor_of_ofDefinitions (planned : ofDefinitions base definitions = .ok plan) :
    plan.IsFor base definitions := by
  induction definitions using List.reverseRecOn generalizing plan with
  | nil =>
      cases planned
      exact isFor_empty base
  | append_singleton before definition ih =>
      rw [ofDefinitions_append_singleton] at planned
      cases earlier : ofDefinitions base before with
      | error rejection =>
          rw [earlier] at planned
          cases planned
      | ok middle =>
          rw [earlier] at planned
          exact (ih earlier).add planned

/-- **Planning stops at a definition that cannot be added to the plan of those before it.** -/
theorem exists_add_error {rejection : Rejection}
    (failed : ofDefinitions base definitions = .error rejection) :
    ∃ before definition after plan, definitions = before ++ definition :: after ∧
      ofDefinitions base before = .ok plan ∧ plan.add base definition = .error rejection := by
  induction definitions using List.reverseRecOn with
  | nil => cases failed
  | append_singleton before definition ih =>
      rw [ofDefinitions_append_singleton] at failed
      cases earlier : ofDefinitions base before with
      | error early =>
          rw [earlier] at failed ih
          cases failed
          obtain ⟨first, stopping, rest, plan, rfl, planned, here⟩ := ih rfl
          exact ⟨first, stopping, rest ++ [definition], plan, by simp, planned, here⟩
      | ok plan =>
          rw [earlier] at failed
          exact ⟨before, definition, [], plan, rfl, earlier, failed⟩

theorem not_admits_of_ofDefinitions {rejection : Rejection}
    (failed : ofDefinitions base definitions = .error rejection) : ¬ base.Admits definitions := by
  obtain ⟨before, definition, after, plan, rfl, planned, here⟩ := exists_add_error failed
  exact (isFor_of_ofDefinitions planned).not_admits here after

end ExtensionPlan

end SchemaGraft
