import SchemaGraft.Proofs.Extension.Planning
import SchemaGraft.Proofs.Extension.Requests

/-!
# What a whole build gives

Building a schema goes through the new directives and then requests every type of the plan. If it
succeeds, no type is left in progress and every type of the plan is there (`run_schema`). What is
collected then depends on the plan alone, although the types were stored in the order in which they
were first asked for (`entries_collect`): it is the merge of the base schema and the document
(`isMerge_of_build`).
-/

set_option autoImplicit false

namespace SchemaGraft

namespace Build

variable {context : BuildContext} {resolve : Resolve}

/-! ## Directives -/

/-- The entries of the directives that are added to a schema. -/
def directiveEntries (definitions : List (Node DirectiveDefinition)) :
    List (Name × Node DirectiveDefinition) :=
  definitions.map fun definition => (definition.value.name, definition)

/-- The directives that are defined in a list. -/
def directiveMentions (definitions : List (Node DirectiveDefinition)) : List Mention :=
  definitions.map fun definition => ⟨definition.value.name, definition.location⟩

theorem memberMentions_directiveEntries (definitions : List (Node DirectiveDefinition)) :
    memberMentions (directiveEntries definitions) = directiveMentions definitions := by
  simp [memberMentions, directiveEntries, directiveMentions, Function.comp_def]

theorem meets_record (event : Event) (fails : Rejection → Prop) :
    Meets context (record event) (fun _ => True) fails :=
  fun _ sound => ⟨trivial, ⟨sound.promised, sound.built⟩, ⟨fun found => found, fun found => found⟩⟩

theorem meets_addDirective (answers : Answers context context.IsRejected resolve)
    {before after : List (Node DirectiveDefinition)} {definition : Node DirectiveDefinition}
    (split : context.plan.newDirectives = before ++ definition :: after)
    {directives : NameMap (Node DirectiveDefinition)}
    (adds : AddsMembers context.base.directives (directiveEntries before) directives) :
    Meets context (addDirective resolve directives definition)
      (fun result =>
        AddsMembers context.base.directives (directiveEntries (before ++ [definition])) result ∧
        ∀ reference ∈ definition.directiveReferences,
          reference.IsMet (declaredKind? context)) context.IsRejected := by
  simp only [addDirective]
  cases found : directives.get? definition.value.name with
  | some previous =>
      obtain ⟨stored, member, same⟩ := (OrderedMap.get?_eq_some_iff directives _ _).1 found
      rw [adds.entries] at member
      refine .throw (BuildContext.IsRejected.directive ⟨directiveMentions before,
        ⟨definition.value.name, definition.location⟩, directiveMentions after,
        ⟨stored, previous.location⟩, by simp [split, directiveMentions], ?_,
        Name.beq_iff_text_eq.1 same, rfl⟩)
      have listed : ⟨stored, previous.location⟩ ∈
          memberMentions (context.base.directives.entries ++ directiveEntries before) :=
        List.mem_map_of_mem member
      rwa [memberMentions_append, memberMentions_directiveEntries] at listed
  | none =>
      rw [OrderedMap.get?_eq_none_iff] at found
      have arguments := meets_referenceAll answers definition.directiveReferences
        fun rejection unmet => .directiveReference (by simp [split]) unmet
      rw [Node.directiveReferences, ← referenceDirectiveArguments_eq] at arguments
      have noted : Meets context (record (.addedDirective definition.value.name))
          (fun _ => True) context.IsRejected := meets_record _ _
      refine arguments.bind fun _ met => noted.bind fun _ _ => .pure ⟨?_, met⟩
      rw [directiveEntries, List.map_append]
      exact adds.insert found

theorem meets_addDirectives (answers : Answers context context.IsRejected resolve) :
    Meets context
      (context.plan.newDirectives.foldlM (addDirective resolve) context.base.directives)
      (fun result =>
        AddsMembers context.base.directives (directiveEntries context.plan.newDirectives) result ∧
        ∀ definition ∈ context.plan.newDirectives, ∀ reference ∈ definition.directiveReferences,
          reference.IsMet (declaredKind? context)) context.IsRejected := by
  refine Meets.foldlM (fun before result =>
    AddsMembers context.base.directives (directiveEntries before) result ∧
      ∀ definition ∈ before, ∀ reference ∈ definition.directiveReferences,
        reference.IsMet (declaredKind? context))
    ⟨AddsMembers.nil _, by simp⟩ ?_
  rintro before definition after directives split ⟨adds, met⟩
  refine (meets_addDirective answers split adds).mono ?_
  rintro result ⟨adds, here⟩
  refine ⟨adds, ?_⟩
  rw [List.forall_mem_append, List.forall_mem_singleton]
  exact ⟨met, here⟩

/-! ## Complete builds -/

/-- A state in which all is built that the plan asks for, and all of it is right. -/
structure IsComplete (context : BuildContext) (state : BuildState) : Prop where
  sound : state.Sound context
  finished : ∀ {name kind}, state.slots.get? name ≠ some (.inProgress kind)
  extended : ∀ {name extended}, context.plan.extended.get? name = some extended →
    state.slots.contains name = true
  added : ∀ {name definition}, context.plan.newTypes.get? name = some definition →
    state.slots.contains name = true

/-- What is there in a complete state is a built type. -/
theorem IsComplete.realized {state : BuildState} (complete : IsComplete context state) {name : Name}
    (present : state.slots.contains name = true) :
    ∃ key type, state.slots.find? name = some (key, .built type) ∧ key.text = name.text ∧
      context.Realizes name type := by
  obtain ⟨slot, stored⟩ := (OrderedMap.contains_iff_exists_value _ _).1 present
  cases slot with
  | inProgress kind => exact absurd stored complete.finished
  | built type =>
      have realizes := complete.sound.built stored
      rw [OrderedMap.get?, Option.map_eq_some_iff] at stored
      obtain ⟨⟨key, slot⟩, found, rfl⟩ := stored
      have same := ((OrderedMap.find?_eq_some_iff _ _ _).1 found).2
      exact ⟨key, type, found, Name.beq_iff_text_eq.1 same, realizes⟩

/-- A state is complete once all names of the plan were asked for. -/
theorem isComplete_of_stored {state : BuildState} (sound : state.Sound context)
    (finished : ∀ {name kind}, state.slots.get? name ≠ some (.inProgress kind))
    (stored : ∀ name ∈ context.plan.extended.keys ++ context.plan.newTypes.keys,
      (declaredKind? context name).isSome = true → state.slots.contains name = true) :
    IsComplete context state := by
  have present : ∀ {name key}, (declaredKind? context name).isSome = true →
      key ∈ context.plan.extended.keys ++ context.plan.newTypes.keys →
      (key == name) = true → state.slots.contains name = true := by
    intro name key declared member same
    rw [← OrderedMap.contains_congr _ same]
    exact stored key member (by rwa [declaredKind?_congr same])
  exact
    { sound := sound
      finished := finished
      extended := by
        intro name extended planned
        obtain ⟨key, member, same⟩ := OrderedMap.exists_key_of_get? planned
        refine present ?_ (List.mem_append_left _ member) same
        rw [declaredKind?, if_pos (OrderedMap.contains_of_get? planned)]
        rfl
      added := by
        intro name definition planned
        obtain ⟨key, member, same⟩ := OrderedMap.exists_key_of_get? planned
        refine present ?_ (List.mem_append_right _ member) same
        unfold declaredKind?
        split
        · rfl
        · rw [planned, Option.isSome_or]
          simp }

/-- What a build gives that succeeds. -/
structure Gives (context : BuildContext) (sources : SourceMap) (schema : Schema)
    (state : BuildState) : Prop where
  sources : schema.sources = sources
  directives : AddsMembers context.base.directives (directiveEntries context.plan.newDirectives)
    schema.directives
  references : ∀ definition ∈ context.plan.newDirectives,
    ∀ reference ∈ definition.directiveReferences, reference.IsMet (declaredKind? context)
  complete : IsComplete context state
  types : schema.types = collect context state.slots
  roots : schema.roots = context.base.roots

/-- **A build gives a complete state, or it is rejected for a reason.** -/
theorem run_schema (context : BuildContext) (sources : SourceMap) :
    match (schema context sources).run .initial with
    | .ok schema state => Gives context sources schema state
    | .error rejection _ => context.IsRejected rejection := by
  -- The directives may ask for types already, so the types are requested in a state that has grown.
  have begun := meets_addDirectives (serves_resolve context).answers _
    (BuildState.sound_initial context)
  simp only [Build.schema, EStateM.run_bind]
  cases result : (context.plan.newDirectives.foldlM (addDirective (Build.resolve context))
      context.base.directives).run .initial with
  | error rejection _ =>
      rw [result] at begun
      exact begun
  | ok directives middle =>
      rw [result] at begun
      obtain ⟨⟨adds, met⟩, sound, early⟩ := begun
      have requested := run_resolveAll (serves_resolve context)
        (context.plan.extended.keys ++ context.plan.newTypes.keys) sound
      simp only
      cases last : (resolveAll (Build.resolve context)
          (context.plan.extended.keys ++ context.plan.newTypes.keys)).run middle with
      | error rejection _ =>
          rw [last] at requested
          exact requested
      | ok _ final =>
          rw [last] at requested
          obtain ⟨sound, late, stored⟩ := requested
          have complete : IsComplete context final :=
            isComplete_of_stored sound
              (fun progress => nomatch early.finishes (late.finishes progress)) stored
          exact ⟨rfl, adds, met, complete, rfl, rfl⟩

/-! ## Collecting the types -/

/-- The entries that are collected: those of the base schema, then the new ones. -/
def collectedEntries (context : BuildContext) (slots : NameMap BuildSlot) :
    List (Name × SchemaType) :=
  (context.base.types.entries.map fun entry =>
    (entry.1, ((builtType? slots entry.1).map (·.2)).getD entry.2)) ++
  context.plan.newTypes.keys.filterMap (builtType? slots)

section Collecting

variable {state : BuildState} (complete : IsComplete context state)
include complete

/-- Every type of the base schema is there, or stays as it is. -/
theorem realizes_of_base {name : Name} {type : SchemaType}
    (found : context.base.types.get? name = some type) :
    context.Realizes name (((builtType? state.slots name).map (·.2)).getD type) := by
  by_cases present : state.slots.contains name = true
  · obtain ⟨key, built, stored, _, realizes⟩ := complete.realized present
    rw [builtType?, stored]
    exact realizes
  · have unstored : builtType? state.slots name = none := by
      rw [Bool.not_eq_true, ← OrderedMap.get?_eq_none_iff, OrderedMap.get?,
        Option.map_eq_none_iff] at present
      rw [builtType?, present]
    rw [unstored]
    refine .kept ?_ found
    by_contra planned
    obtain ⟨extended, planned⟩ := Option.ne_none_iff_exists'.1 planned
    exact present (complete.extended planned)

/-- Every new type is there. -/
theorem built_of_added {name : Name} (member : name ∈ context.plan.newTypes.keys) :
    ∃ key type, builtType? state.slots name = some (key, type) ∧ key.text = name.text ∧
      context.Realizes name type := by
  obtain ⟨definition, planned⟩ :
      ∃ definition, context.plan.newTypes.get? name = some definition := by
    rw [← OrderedMap.contains_iff_exists_value, OrderedMap.contains_iff_exists_key]
    exact ⟨name, member, BEq.rfl⟩
  obtain ⟨key, type, found, same, realizes⟩ := complete.realized (complete.added planned)
  exact ⟨key, type, by rw [builtType?, found], same, realizes⟩

/-- The types are collected in the order of the base schema and then of the document. In which order
they were stored does not show. -/
theorem texts_collectedEntries :
    (collectedEntries context state.slots).map (·.1.text) =
      context.base.types.texts ++ context.plan.newTypes.texts := by
  have added : ∀ names : List Name, (∀ name ∈ names, name ∈ context.plan.newTypes.keys) →
      (names.filterMap (builtType? state.slots)).map (·.1.text) = names.map (·.text) := by
    intro names
    induction names with
    | nil => exact fun _ => rfl
    | cons name rest ih =>
        intro members
        obtain ⟨key, type, found, same, _⟩ := built_of_added complete (members name (by simp))
        rw [List.filterMap_cons_some found, List.map_cons, List.map_cons,
          ih fun other member => members other (by simp [member]), same]
  rw [collectedEntries, List.map_append, added _ fun _ member => member]
  simp [NameMap.texts, OrderedMap.keys, Function.comp_def]

/-- **Nothing is lost when the types are collected**, because no name is defined twice. -/
theorem entries_collect (fresh : AreFresh context.base.types.keys context.plan.newTypes.keys) :
    (collect context state.slots).entries = collectedEntries context state.slots := by
  refine OrderedMap.entries_ofList ?_
  have distinct : ((collectedEntries context state.slots).map (·.1.text)).Nodup := by
    rw [texts_collectedEntries complete, List.nodup_append]
    refine ⟨NameMap.nodup_texts _, fresh.distinct, ?_⟩
    rintro _ earlier _ later rfl
    obtain ⟨name, member, rfl⟩ := List.mem_map.1 later
    exact fresh.absent name member earlier
  rw [List.Nodup, List.pairwise_map] at distinct
  refine distinct.imp fun {earlier later} apart => ?_
  rw [← Bool.not_eq_true, Name.beq_iff_text_eq]
  exact apart

/-- Every name whose kind is declared has the right type among those that are collected. -/
theorem realizes_collect (fresh : AreFresh context.base.types.keys context.plan.newTypes.keys)
    {name : Name}
    (named : context.base.types.contains name = true ∨
      context.plan.newTypes.contains name = true) :
    ∃ type, (collect context state.slots).get? name = some type ∧ context.Realizes name type := by
  have entries := entries_collect complete fresh
  rcases named with present | present
  · obtain ⟨type, found⟩ := (OrderedMap.contains_iff_exists_value _ _).1 present
    obtain ⟨stored, member, same⟩ := (OrderedMap.get?_eq_some_iff _ _ _).1 found
    have realizes := realizes_of_base complete (OrderedMap.get?_of_mem member)
    refine ⟨_, (OrderedMap.get?_eq_some_iff _ _ _).2 ⟨stored, ?_, same⟩, realizes.congr same⟩
    rw [entries, collectedEntries]
    exact List.mem_append_left _ (List.mem_map.2 ⟨(stored, type), member, rfl⟩)
  · obtain ⟨key, member, same⟩ := (OrderedMap.contains_iff_exists_key _ _).1 present
    obtain ⟨stored, type, found, spelled, realizes⟩ := built_of_added complete member
    have listed : (stored, type) ∈ (collect context state.slots).entries := by
      rw [entries, collectedEntries]
      exact List.mem_append_right _ (List.mem_filterMap.2 ⟨key, member, found⟩)
    have equal : (stored == name) = true :=
      Name.beq_iff_text_eq.2 (spelled.trans (Name.beq_iff_text_eq.1 same))
    exact ⟨type, (OrderedMap.get?_eq_some_iff _ _ _).2 ⟨stored, listed, equal⟩, realizes.congr same⟩

end Collecting

/-! ## The merge -/

section Merge

variable {definitions : List Definition} (isFor : context.plan.IsFor context.base definitions)
include isFor

/-- The name of a new type is not that of a type of the base schema. -/
theorem absent_of_added {definition : TypeDefinition}
    (member : definition ∈ Definition.typesAmong definitions) :
    context.base.types.get? definition.name = none ∧
      context.plan.extended.get? definition.name = none ∧
      context.plan.newTypes.get? definition.name = some definition := by
  have absent : context.base.types.get? definition.name = none := by
    rw [OrderedMap.get?_eq_none_iff, NameMap.contains_eq_false_iff]
    exact isFor.fresh.absent _ (List.mem_map_of_mem member)
  refine ⟨absent, ?_, ?_⟩
  · by_contra planned
    obtain ⟨extended, planned⟩ := Option.ne_none_iff_exists'.1 planned
    obtain ⟨found, _⟩ := isFor.extended_eq planned
    rw [absent] at found
    cases found
  · have entry : (definition.name, definition) ∈ context.plan.newTypes.entries := by
      rw [isFor.newTypes]
      exact List.mem_map_of_mem (f := fun definition => (definition.name, definition)) member
    exact OrderedMap.get?_of_mem entry

/-- **What is built is the merge of the base schema and the definitions.** -/
theorem isMerge_of_gives {sources : SourceMap} {schema : Schema} {state : BuildState}
    (gives : Gives context sources schema state) :
    Schema.IsMerge context.asRun context.base definitions schema := by
  have fresh : AreFresh context.base.types.keys context.plan.newTypes.keys :=
    isFor.keys_newTypes ▸ isFor.fresh
  have collected : ∀ {name}, context.base.types.contains name = true ∨
        context.plan.newTypes.contains name = true →
      ∃ type, schema.types.get? name = some type ∧ context.Realizes name type := by
    rw [gives.types]
    exact realizes_collect gives.complete fresh
  exact
    { typeNames := by
        have keys : schema.types.texts =
            (collectedEntries context state.slots).map (·.1.text) := by
          rw [gives.types, NameMap.texts, OrderedMap.keys, entries_collect gives.complete fresh,
            List.map_map]
          rfl
        rw [keys, texts_collectedEntries gives.complete, NameMap.texts, NameMap.texts,
          isFor.keys_newTypes, List.map_map]
        rfl
      kept := by
        intro name type found none
        obtain ⟨kept, stored, realizes⟩ := collected (.inl (OrderedMap.contains_of_get? found))
        rw [stored, realizes.eq_of_kept (isFor.unextended none) found]
      extended := by
        intro name type found some
        obtain ⟨base, same, planned⟩ := isFor.extended some
        rw [found] at same
        cases same
        obtain ⟨built, stored, realizes⟩ := collected (.inl (OrderedMap.contains_of_get? found))
        obtain ⟨extended, rfl, _, extension⟩ := realizes.eq_of_extended planned
        exact ⟨extended, stored, extension⟩
      added := by
        intro definition member
        obtain ⟨absent, unplanned, planned⟩ := absent_of_added isFor member
        obtain ⟨type, stored, realizes⟩ := collected (.inr (OrderedMap.contains_of_get? planned))
        obtain ⟨_, makes⟩ := realizes.eq_of_added unplanned absent planned
        exact ⟨type, stored, makes⟩
      directives := by rw [gives.directives.entries, isFor.newDirectives]; rfl
      roots := gives.roots }

end Merge

end Build

end SchemaGraft
