import Mathlib.Data.List.Perm.Basic
import SchemaGraft.Proofs.Extension.Laziness
import SchemaGraft.Proofs.Extension.Outcome

/-!
# Each type is built once

To count what is begun, a second build notes each type that it begins and does all else as the first
(`noting`). The two are followed side by side (`tracks_resolveNoting`); what has been noted, what is
still open and what was logged always tally (`Tallied`).

In the end (`Schema.builtOnce_of_plan`) every name of the plan was begun once and logged once,
nothing is left open and nothing is lost. A build that is rejected has begun no name twice either.
-/

set_option autoImplicit false

namespace SchemaGraft

namespace Build

variable {context : BuildContext}

/-! ## Noting what is begun -/

/-- The note that the type of a name is begun. A build by itself records no event of this form. -/
def beginNote (name : Name) : Event := .ignoredDefinition (.fragment name)

/-- The name that is noted to be begun. -/
def notedName? : Event → Option Name
  | .ignoredDefinition (.fragment name) => some name
  | _ => none

/-- The names that were noted to be begun, latest first. -/
def begunNames (state : BuildState) : List Name := state.events.filterMap notedName?

/-- The events without the notes. -/
def unnoted (state : BuildState) : List Event :=
  state.events.filter fun event => (notedName? event).isNone

/-- Notes that a type is begun, if the plan has it. -/
def noteBegin (context : BuildContext) (name : Name) : Build Unit :=
  if IsPlanned context name then record (beginNote name) else pure ()

/-- Answers a request for a type as `resolveWith` does, and notes when it begins the type. It is
only in `begin?` that `extendObject` and `buildType` are used, and each time one of them, once. -/
def resolveNoting (context : BuildContext) (resolve : Resolve) : Resolve := fun name => do
  match (← get).slots.get? name with
  | some slot => return some slot.kind
  | none => do
    noteBegin context name
    begin? context resolve name

/-- Answers a request for a type as `resolve` does, and notes which types are begun. -/
def noting (context : BuildContext) : Resolve :=
  (resolveNoting context)^[depthBound context.plan] fun name => return declaredKind? context name

/-- Builds the extended schema, given what answers requests. -/
def schemaBy (resolve : Resolve) (context : BuildContext) (sources : SourceMap) : Build Schema := do
  let directives ← context.plan.newDirectives.foldlM (addDirective resolve)
    context.base.directives
  resolveAll resolve (context.plan.extended.keys ++ context.plan.newTypes.keys)
  return {
    sources := sources
    directives := directives
    types := collect context (← get).slots
    roots := context.base.roots }

theorem schema_eq_schemaBy (context : BuildContext) (sources : SourceMap) :
    schema context sources = schemaBy (Build.resolve context) context sources := rfl

/-- A build with notes is where the one without is. -/
structure IsNoted (context : BuildContext) (noted plain : BuildState) : Prop where
  slots : noted.slots = plain.slots
  events : unnoted noted = plain.events
  /-- No name has been begun twice. -/
  once : ((begunNames noted).map (·.text)).Nodup
  planned : ∀ name ∈ begunNames noted, IsPlanned context name

/-- What has been begun, what is open, and what was recorded besides the types, tally with each
other: a name of the plan has been begun if and only if it is there, and the types that have been
begun are those that were built and those that are open. -/
structure Tallied (context : BuildContext) (pending : List Name) (added : List Event)
    (noted plain : BuildState) : Prop extends IsNoted context noted plain where
  begun : ∀ {name}, IsPlanned context name →
    (noted.slots.contains name = true ↔ name.text ∈ (begunNames noted).map (·.text))
  open_begun : ∀ name ∈ pending, name ∈ begunNames noted
  log : (plain.events ++ pending.filterMap (builtEvent? context)).Perm
    (added ++ (begunNames noted).filterMap (builtEvent? context))

theorem notedName?_of_builtEvent? {name : Name} {event : Event}
    (built : builtEvent? context name = some event) : notedName? event = none := by
  unfold builtEvent? at built
  split at built
  · cases built
    rfl
  · split at built
    · cases built
    · obtain ⟨_, _, rfl⟩ := Option.map_eq_some_iff.1 built
      rfl

section Tally

variable {pending : List Name} {added : List Event} {noted plain : BuildState} {name : Name}

theorem begunNames_withEvent {event : Event} (other : notedName? event = none) :
    begunNames (noted.withEvent event) = begunNames noted :=
  List.filterMap_cons_none other

theorem unnoted_withEvent {event : Event} (other : notedName? event = none) :
    unnoted (noted.withEvent event) = event :: unnoted noted :=
  List.filter_cons_of_pos (by rw [other]; rfl)

/-- A type of the plan is begun. -/
theorem Tallied.opens (tallied : Tallied context pending added noted plain)
    (planned : IsPlanned context name) (absent : plain.slots.get? name = none) (kind : TypeKind) :
    Tallied context (name :: pending) added
      ((noted.withEvent (beginNote name)).withSlot name (.inProgress kind))
      (plain.withSlot name (.inProgress kind)) := by
  have names : begunNames ((noted.withEvent (beginNote name)).withSlot name (.inProgress kind)) =
      name :: begunNames noted := rfl
  have new : name.text ∉ (begunNames noted).map (·.text) := by
    rw [← tallied.begun planned, tallied.slots, Bool.not_eq_true, ← OrderedMap.get?_eq_none_iff]
    exact absent
  obtain ⟨event, built⟩ := Option.isSome_iff_exists.1 planned
  exact
    { slots := BuildState.slots_withSlot_congr tallied.slots name _
      events := tallied.events
      once := by
        rw [names, List.map_cons, List.nodup_cons]
        exact ⟨new, tallied.once⟩
      planned := by
        rw [names, List.forall_mem_cons]
        exact ⟨planned, tallied.planned⟩
      begun := by
        intro other planned
        have here := tallied.begun planned
        rw [names, List.map_cons, List.mem_cons, ← here, BuildState.withSlot,
          OrderedMap.contains_insert, Bool.or_eq_true, Name.beq_iff_text_eq, eq_comm]
        rfl
      open_begun := by
        rw [names, List.forall_mem_cons]
        exact ⟨List.mem_cons_self, fun other member =>
          List.mem_cons_of_mem _ (tallied.open_begun other member)⟩
      log := by
        rw [names, List.filterMap_cons_some built, List.filterMap_cons_some built]
        exact List.perm_middle.trans ((tallied.log.cons event).trans List.perm_middle.symm) }

/-- A type of the plan is finished. -/
theorem Tallied.closes (tallied : Tallied context (name :: pending) added noted plain)
    {event : Event} (built : builtEvent? context name = some event) (type : SchemaType) :
    Tallied context pending added ((noted.withEvent event).withSlot name (.built type))
      ((plain.withEvent event).withSlot name (.built type)) := by
  have other := notedName?_of_builtEvent? built
  have names : begunNames ((noted.withEvent event).withSlot name (.built type)) =
      begunNames noted := begunNames_withEvent other
  have present : name ∈ begunNames noted := tallied.open_begun name List.mem_cons_self
  exact
    { slots := BuildState.slots_withSlot_congr tallied.slots name _
      events := (unnoted_withEvent other).trans (congrArg _ tallied.events)
      once := names ▸ tallied.once
      planned := names ▸ tallied.planned
      begun := by
        intro another planned
        have here := tallied.begun planned
        rw [names, ← here, BuildState.withSlot, OrderedMap.contains_insert, Bool.or_eq_true,
          Name.beq_iff_text_eq]
        refine or_iff_right_of_imp fun same => here.2 ?_
        rw [← same]
        exact List.mem_map_of_mem present
      open_begun := by
        rw [names]
        exact fun another member => tallied.open_begun another (List.mem_cons_of_mem _ member)
      log := by
        rw [names]
        have log := tallied.log
        rw [List.filterMap_cons_some built] at log
        exact List.perm_middle.symm.trans log }

/-- What is not in the plan is put there at once. -/
theorem Tallied.keeps (tallied : Tallied context pending added noted plain)
    (unplanned : builtEvent? context name = none) (type : SchemaType) :
    Tallied context pending added (noted.withSlot name (.built type))
      (plain.withSlot name (.built type)) where
  slots := BuildState.slots_withSlot_congr tallied.slots name _
  events := tallied.events
  once := tallied.once
  planned := tallied.planned
  begun := by
    intro other planned
    have apart : (name == other) = false := by
      rw [← Bool.not_eq_true]
      intro same
      rw [← isPlanned_congr same, IsPlanned, unplanned] at planned
      cases planned
    rw [BuildState.withSlot, OrderedMap.contains_insert, apart, Bool.false_or]
    exact tallied.begun planned
  open_begun := tallied.open_begun
  log := tallied.log

end Tally

/-- **Noting what is begun changes nothing else**, and what is noted tallies with what is there. -/
theorem tracks_resolveNoting (pending : List Name) {added : List Event} (depth : Nat)
    (name : Name) :
    Tracks (Tallied context pending added) (Tallied context pending added) (IsNoted context)
      ((resolveNoting context)^[depth] (fun name => return declaredKind? context name) name)
      ((resolveWith context)^[depth] (fun name => return declaredKind? context name) name) := by
  induction depth generalizing pending name with
  | zero => exact .pure _ fun _ _ tallied => tallied
  | succ depth ih =>
      rw [Function.iterate_succ_apply', Function.iterate_succ_apply']
      intro noted plain tallied
      simp only [resolveNoting, resolveWith, EStateM.run_bind, EStateM.run_get, tallied.slots]
      cases found : plain.slots.get? name with
      | some slot => exact .ok tallied
      | none =>
          by_cases planned : IsPlanned context name
          · have noted_begin : (noteBegin context name).run noted =
                .ok () (noted.withEvent (beginNote name)) := by
              rw [noteBegin, if_pos planned]
              rfl
            rw [EStateM.run_bind, noted_begin]
            refine (tracks_begin? (ih (name :: pending)) (fun _ _ tallied => tallied.toIsNoted)
              ?opens (fun _ type _ _ built tallied => tallied.closes built type)
              (fun _ _ _ unplanned => ?_) (fun _ _ unplanned => ?_)).ends
            case opens =>
              rintro kind _ _ planned ⟨rfl, rfl⟩
              exact tallied.opens planned found kind
            all_goals
              rw [IsPlanned, unplanned] at planned
              cases planned
          · have unnoted : (noteBegin context name).run noted = .ok () noted := by
              rw [noteBegin, if_neg planned]
              rfl
            rw [EStateM.run_bind, unnoted]
            refine (tracks_begin? (ih pending) (fun _ _ tallied => tallied.toIsNoted)
              (fun _ _ _ here => absurd here planned) (fun _ _ _ _ built => ?closes) ?keeps
              ?lacks).ends
            case closes =>
              rw [IsPlanned, built] at planned
              exact absurd rfl planned
            case keeps =>
              rintro type _ _ unplanned ⟨rfl, rfl⟩
              exact tallied.keeps unplanned type
            case lacks =>
              rintro _ _ _ ⟨rfl, rfl⟩
              exact tallied

/-- Notes answer every request as it is answered without them. -/
theorem tracks_noting {pending : List Name} {added : List Event} (name : Name) :
    Tracks (Tallied context pending added) (Tallied context pending added) (IsNoted context)
      (noting context name) (Build.resolve context name) := by
  rw [noting, Build.resolve, resolveWithin_eq_iterate]
  exact tracks_resolveNoting pending _ name

/-! ## Directives and the whole schema -/

/-- The event that tells that a directive was added. -/
def addedEvent (definition : Node DirectiveDefinition) : Event :=
  .addedDirective definition.value.name

theorem tracks_addDirective {added : List Event} (directives : NameMap (Node DirectiveDefinition))
    (definition : Node DirectiveDefinition) :
    Tracks (Tallied context [] added) (Tallied context [] (addedEvent definition :: added))
      (IsNoted context) (addDirective (noting context) directives definition)
      (addDirective (Build.resolve context) directives definition) := by
  unfold addDirective
  dsimp only
  cases directives.get? definition.value.name with
  | some previous => exact .throw _ fun _ _ tallied => tallied.toIsNoted
  | none =>
      refine ((isInquiry_referenceDirectiveArguments _ _).tracks tracks_noting
        fun _ _ tallied => tallied.toIsNoted).bind fun _ => ?_
      refine (tracks_record _ fun noted plain tallied => ?_).bind fun _ =>
        .pure _ fun _ _ tallied => tallied
      exact
        { slots := tallied.slots
          events := (unnoted_withEvent rfl).trans (congrArg _ tallied.events)
          once := tallied.once
          planned := tallied.planned
          begun := tallied.begun
          open_begun := tallied.open_begun
          log := tallied.log.cons (addedEvent definition) }

theorem tracks_addDirectives (definitions : List (Node DirectiveDefinition)) {added : List Event}
    (directives : NameMap (Node DirectiveDefinition)) :
    Tracks (Tallied context [] added)
      (Tallied context [] ((definitions.map addedEvent).reverse ++ added)) (IsNoted context)
      (definitions.foldlM (addDirective (noting context)) directives)
      (definitions.foldlM (addDirective (Build.resolve context)) directives) := by
  induction definitions generalizing added directives with
  | nil => exact .pure _ fun _ _ tallied => tallied
  | cons definition rest ih =>
      rw [List.foldlM_cons, List.foldlM_cons, List.map_cons, List.reverse_cons, List.append_assoc]
      exact (tracks_addDirective directives definition).bind fun _ => ih _

theorem tallied_initial (context : BuildContext) : Tallied context [] [] .initial .initial where
  slots := rfl
  events := rfl
  once := .nil
  planned := nofun
  begun := fun _ => iff_of_false Bool.false_ne_true List.not_mem_nil
  open_begun := nofun
  log := .refl _

/-- **A build with notes is the build without them**, and its notes tally in the end. -/
theorem tracks_schemaBy (sources : SourceMap) :
    Tracks (Tallied context [] [])
      (Tallied context [] (context.plan.newDirectives.map addedEvent).reverse) (IsNoted context)
      (schemaBy (noting context) context sources)
      (schemaBy (Build.resolve context) context sources) := by
  refine (tracks_addDirectives _ _).bind fun directives => ?_
  rw [List.append_nil]
  refine ((isInquiry_resolveAll _).tracks tracks_noting
    fun _ _ tallied => tallied.toIsNoted).bind fun _ => ?_
  intro noted plain tallied
  simp only [EStateM.run_bind, EStateM.run_get, tallied.slots]
  exact .ok tallied

end Build

/-! ## What was begun in the end -/

/-- What an event shows. -/
def Event.shown (event : Event) : String × List (String × EventField) :=
  (event.message, event.fields)

/-- The event tells of a part of the extended schema. -/
def Event.tellsOfPart (event : Event) : Bool :=
  ["added directive", "built extended type", "built new type"].contains event.message

/-- One event for each part of a plan. -/
def ExtensionPlan.partEvents (plan : ExtensionPlan) : List Event :=
  plan.newDirectives.map Build.addedEvent ++
    (plan.extended.entries.map (fun entry => .builtExtendedType entry.1 entry.2.clauses.length) ++
      plan.newTypes.entries.map fun entry => .builtNewType entry.1 entry.2.kind)

namespace Build

variable {context : BuildContext} {definitions : List Definition}

/-- A build that succeeds, beside one with notes: all names of the plan were begun, each once;
nothing is left open; every new type is there to be collected; and the log shows each part once. -/
structure BuiltOnce (context : BuildContext) (noted plain : BuildState) : Prop
    extends IsNoted context noted plain where
  begun : ((begunNames noted).map (·.text)).Perm
    (context.plan.extended.texts ++ context.plan.newTypes.texts)
  finished : ∀ name kind, plain.slots.get? name ≠ some (.inProgress kind)
  collected : ∀ name ∈ context.plan.newTypes.keys,
    ∃ key type, builtType? plain.slots name = some (key, type) ∧ key.text = name.text
  log : (plain.events.map Event.shown).Perm (context.plan.partEvents.map Event.shown)

/-- What the event of a name shows depends on its text only. -/
theorem shown_builtEvent? (context : BuildContext) (name : Name) :
    (builtEvent? context name).map Event.shown =
      (builtEvent? context (.plain name.text)).map Event.shown := by
  have same : (name == Name.plain name.text) = true := Name.beq_iff_text_eq.2 rfl
  unfold builtEvent?
  rw [OrderedMap.get?_congr _ same, OrderedMap.get?_congr _ same, OrderedMap.contains_congr _ same]
  cases context.plan.extended.get? (.plain name.text) with
  | some extended => rfl
  | none =>
      dsimp only
      split
      · rfl
      · rw [Option.map_map, Option.map_map]
        rfl

theorem shown_builtEvents_perm {names others : List Name}
    (same : (names.map (·.text)).Perm (others.map (·.text))) :
    ((names.filterMap (builtEvent? context)).map Event.shown).Perm
      ((others.filterMap (builtEvent? context)).map Event.shown) := by
  have by_text : ∀ names : List Name, (names.filterMap (builtEvent? context)).map Event.shown =
      (names.map (·.text)).filterMap fun text =>
        (builtEvent? context (.plain text)).map Event.shown := by
    intro names
    rw [List.map_filterMap, List.filterMap_map]
    exact List.filterMap_congr fun name _ => shown_builtEvent? context name
  rw [by_text, by_text]
  exact same.filterMap _

section Plan

variable (isFor : context.plan.IsFor context.base definitions)
include isFor

/-- A new type is not begun in place of another. -/
theorem builtEvent?_of_newTypes {entry : Name × TypeDefinition}
    (member : entry ∈ context.plan.newTypes.entries) :
    builtEvent? context entry.1 = some (.builtNewType entry.1 entry.2.kind) := by
  rw [isFor.newTypes] at member
  obtain ⟨definition, listed, rfl⟩ := List.mem_map.1 member
  obtain ⟨absent, unplanned, planned⟩ := absent_of_added isFor listed
  rw [OrderedMap.get?_eq_none_iff] at absent
  simp [builtEvent?, unplanned, absent, planned]

omit isFor in
theorem builtEvent?_of_extended {entry : Name × ExtendedObject}
    (member : entry ∈ context.plan.extended.entries) :
    builtEvent? context entry.1 =
      some (.builtExtendedType entry.1 entry.2.clauses.length) := by
  rw [builtEvent?, OrderedMap.get?_of_mem member]

/-- The events of all types of a plan. -/
theorem builtEvents_keys :
    (context.plan.extended.keys ++ context.plan.newTypes.keys).filterMap (builtEvent? context) =
      context.plan.extended.entries.map
          (fun entry => .builtExtendedType entry.1 entry.2.clauses.length) ++
        context.plan.newTypes.entries.map fun entry => .builtNewType entry.1 entry.2.kind := by
  rw [List.filterMap_append, OrderedMap.keys, OrderedMap.keys, List.filterMap_map,
    List.filterMap_map, ← List.filterMap_eq_map, ← List.filterMap_eq_map]
  exact congrArg₂ (· ++ ·)
    (List.filterMap_congr fun entry member => builtEvent?_of_extended member)
    (List.filterMap_congr fun entry member => builtEvent?_of_newTypes isFor member)

/-- All names of a plan are in the plan. -/
theorem isPlanned_of_mem_keys {key : Name}
    (member : key ∈ context.plan.extended.keys ++ context.plan.newTypes.keys) :
    IsPlanned context key := by
  rcases List.mem_append.1 member with listed | listed <;>
    obtain ⟨entry, present, rfl⟩ := List.mem_map.1 listed
  · rw [IsPlanned, builtEvent?_of_extended present, Option.isSome_some]
  · rw [IsPlanned, builtEvent?_of_newTypes isFor present, Option.isSome_some]

/-- No name is in the plan twice. -/
theorem nodup_texts_plan :
    (context.plan.extended.texts ++ context.plan.newTypes.texts).Nodup := by
  rw [List.nodup_append]
  refine ⟨NameMap.nodup_texts _, NameMap.nodup_texts _, ?_⟩
  rintro text early _ late rfl
  obtain ⟨key, listed, rfl⟩ := List.mem_map.1 late
  rw [isFor.keys_newTypes] at listed
  obtain ⟨definition, member, rfl⟩ := List.mem_map.1 listed
  have unplanned := (absent_of_added isFor member).2.1
  rw [OrderedMap.get?_eq_none_iff, NameMap.contains_eq_false_iff] at unplanned
  exact unplanned early

/-- In a complete build, all names of the plan were begun. -/
theorem begun_perm {added : List Event} {noted plain : BuildState}
    (tallied : Tallied context [] added noted plain) (complete : IsComplete context plain) :
    ((begunNames noted).map (·.text)).Perm
      ((context.plan.extended.keys ++ context.plan.newTypes.keys).map (·.text)) := by
  rw [List.perm_ext_iff_of_nodup tallied.once
    (by rw [List.map_append]; exact nodup_texts_plan isFor)]
  intro text
  constructor
  · intro begun
    obtain ⟨name, member, rfl⟩ := List.mem_map.1 begun
    obtain ⟨key, listed, same⟩ := exists_key_of_isPlanned (tallied.planned name member)
    exact List.mem_map.2 ⟨key, listed, Name.beq_iff_text_eq.1 same⟩
  · intro planned
    obtain ⟨key, member, rfl⟩ := List.mem_map.1 planned
    rw [← tallied.begun (isPlanned_of_mem_keys isFor member), tallied.slots]
    rcases List.mem_append.1 member with listed | listed <;>
      obtain ⟨entry, present, rfl⟩ := List.mem_map.1 listed
    · exact complete.extended (OrderedMap.get?_of_mem present)
    · exact complete.added (OrderedMap.get?_of_mem present)

/-- The events of a complete build show one for each part of the plan. -/
theorem events_perm {noted plain : BuildState}
    (tallied : Tallied context [] (context.plan.newDirectives.map addedEvent).reverse noted plain)
    (complete : IsComplete context plain) :
    (plain.events.map Event.shown).Perm (context.plan.partEvents.map Event.shown) := by
  have log := tallied.log.map Event.shown
  rw [List.filterMap_nil, List.append_nil, List.map_append] at log
  refine log.trans ?_
  rw [ExtensionPlan.partEvents, List.map_append, ← builtEvents_keys isFor]
  exact ((List.reverse_perm _).map _).append
    (shown_builtEvents_perm (begun_perm isFor tallied complete))

/-- **A build that succeeds has built each type once**, and one that is rejected none twice. -/
theorem builtOnce_schema (sources : SourceMap) :
    EndTogether (BuiltOnce context) (IsNoted context)
      ((schemaBy (noting context) context sources).run .initial)
      ((schema context sources).run .initial) := by
  have tracks := tracks_schemaBy sources _ _ (tallied_initial context)
  have gives := run_schema context sources
  rw [← schema_eq_schemaBy] at tracks
  revert tracks gives
  generalize (schemaBy (noting context) context sources).run .initial = noted
  generalize (schema context sources).run .initial = plain
  rintro (⟨tallied⟩ | ⟨failed⟩) gives
  · have begun := begun_perm isFor tallied gives.complete
    rw [List.map_append] at begun
    exact .ok
      { toIsNoted := tallied.toIsNoted
        begun := begun
        finished := fun _ _ => gives.complete.finished
        collected := by
          intro name member
          obtain ⟨key, type, found, same, _⟩ := built_of_added gives.complete member
          exact ⟨key, type, found, same⟩
        log := events_perm isFor tallied gives.complete }
  · exact .error failed

end Plan

end Build

/-! ## Extending a schema -/

/-- Planning tells of no part of the extended schema. -/
theorem ExtensionPlan.filter_tellsOfPart_events (base : Schema) (plan : ExtensionPlan)
    (definitions : List Definition) :
    (plan.events base definitions).filter Event.tellsOfPart = [] := by
  induction definitions generalizing plan with
  | nil => rfl
  | cons definition rest ih =>
      unfold ExtensionPlan.events
      split
      · rfl
      · split
        · exact ih _
        · exact ih _

theorem ExtensionPlan.partEvents_of_isEmpty {plan : ExtensionPlan} (empty : plan.isEmpty = true) :
    plan.partEvents = [] := by
  simp only [isEmpty, OrderedMap.isEmpty, Bool.and_eq_true, List.isEmpty_iff] at empty
  obtain ⟨⟨extended, types⟩, directives⟩ := empty
  rw [partEvents, extended, types, directives]
  rfl

theorem ExtensionPlan.tellsOfPart_of_mem_partEvents {plan : ExtensionPlan} {event : Event}
    (member : event ∈ plan.partEvents) : event.tellsOfPart = true := by
  simp only [partEvents, List.mem_append, List.mem_map] at member
  rcases member with ⟨_, _, rfl⟩ | ⟨_, _, rfl⟩ | ⟨_, _, rfl⟩ <;> rfl

/-- A log that shows the parts of a plan holds nothing else. -/
theorem ExtensionPlan.filter_tellsOfPart {plan : ExtensionPlan} {log : List Event}
    (same : (log.map Event.shown).Perm (plan.partEvents.map Event.shown)) :
    log.filter Event.tellsOfPart = log := by
  rw [List.filter_eq_self]
  intro event member
  obtain ⟨other, listed, shown⟩ :=
    List.mem_map.1 (same.subset (List.mem_map_of_mem (f := Event.shown) member))
  have message : other.message = event.message := congrArg Prod.fst shown
  rw [Event.tellsOfPart, ← message]
  exact tellsOfPart_of_mem_partEvents listed

/-- What carrying out a plan logs shows each part of the plan once. -/
theorem Schema.carryOut_events {run : ExtensionRun} {base : Schema} {document : Document}
    {plan : ExtensionPlan} (isFor : plan.IsFor base document.definitions) {schema : Schema}
    (succeeds : (base.carryOut run document plan).result = .ok schema) :
    (((base.carryOut run document plan).events.filter Event.tellsOfPart).map Event.shown).Perm
      (plan.partEvents.map Event.shown) := by
  have ends := @Build.builtOnce_schema (run.context base plan) _ isFor (base.sourcesWith document)
  unfold ExtensionRun.context at ends
  simp only [Schema.carryOut] at succeeds ⊢
  cases result : (Build.schema ⟨run.number, base, plan, run.resolvers⟩
      (base.sourcesWith document)).run .initial with
  | error rejection state =>
      rw [result] at succeeds
      cases succeeds
  | ok schema state =>
      rw [result] at ends
      revert ends
      generalize (Build.schemaBy _ _ _).run _ = noted
      rintro ⟨once⟩
      have log := ((List.reverse_perm _).map Event.shown).trans once.log
      dsimp only
      rw [List.filter_cons_of_neg (by simp [Event.tellsOfPart, Event.message]),
        ExtensionPlan.filter_tellsOfPart log]
      exact log

/-- **Types are built on demand, each once, and none is lost.**

Requests for types nest no deeper than the plan is long, so that it does not matter what would be
answered below; what answers them is the only solution of its own equation.

Beside a build with notes of what it begins, which differs in nothing else: a build that succeeds
has begun each name of the plan once, and one that is rejected has begun no name twice. Whenever the
extension succeeds, its log shows each part of the plan once. -/
theorem Schema.builtOnce_of_plan {run : ExtensionRun} {base : Schema} {document : Document}
    {plan : ExtensionPlan}
    (planned : ExtensionPlan.ofDefinitions base document.definitions = .ok plan) :
    let context := run.context base plan
    let sources := base.sourcesWith document
    (∀ (bottom : Build.Resolve) (depth : Nat), Build.depthBound plan ≤ depth →
      (Build.resolveWith context)^[depth] bottom = Build.resolve context) ∧
    (∀ resolve, Build.resolveWith context resolve = resolve ↔ resolve = Build.resolve context) ∧
    Build.EndTogether (Build.BuiltOnce context) (Build.IsNoted context)
      ((Build.schemaBy (Build.noting context) context sources).run .initial)
      ((Build.schema context sources).run .initial) ∧
    ∀ extended, (base.extend run document).result = .ok extended →
      (((base.extend run document).events.filter Event.tellsOfPart).map Event.shown).Perm
        (plan.partEvents.map Event.shown) := by
  have isFor := ExtensionPlan.isFor_of_ofDefinitions planned
  refine ⟨fun bottom depth enough => Build.iterate_resolveWith bottom enough, fun resolve => ?_,
    Build.builtOnce_schema isFor _, ?_⟩
  · constructor
    · exact Build.eq_resolve_of_resolveWith_eq
    · rintro rfl
      exact Build.resolveWith_resolve _
  · intro extended
    unfold Schema.extend
    simp only [planned]
    split
    · rename_i empty
      intro _
      rw [List.filter_append, ExtensionPlan.filter_tellsOfPart_events,
        ExtensionPlan.partEvents_of_isEmpty empty]
      exact .refl _
    · intro succeeds
      rw [List.filter_append, ExtensionPlan.filter_tellsOfPart_events, List.nil_append]
      cases result : (base.carryOut run document plan).result with
      | error rejection =>
          rw [result] at succeeds
          cases succeeds
      | ok schema => exact Schema.carryOut_events isFor result

theorem Schema.builtOnce_of_plan_tree :
    ∃ extended, (linkSchema.extend ⟨1, .none⟩ treeDocument).result = .ok extended ∧
      (((linkSchema.extend ⟨1, .none⟩ treeDocument).events.filter Event.tellsOfPart).map
        Event.shown).Perm
        [("built extended type", [("name", .text "Link"), ("clauses", .count 1)]),
          ("built new type", [("name", .text "Tree"), ("kind", .text "an object type")])] :=
  ⟨_, rfl, (@Schema.builtOnce_of_plan ⟨1, .none⟩ linkSchema treeDocument _ rfl).2.2.2 _ rfl⟩

end SchemaGraft
