import SchemaGraft.Proofs.Extension.Types

/-!
# What requests for types do

A request for a type is answered from what is there, or else the type is begun, built and finished.
While a type is in progress, only its kind is promised. What is built in the meantime relies on the
promise, and the promise is kept: the type that is stored in the end has that kind
(`BuildState.Sound.finish`).

Requests nest. That they all answer alike is shown by induction on the depth to which they may nest
(`answers_resolveWithin`): an answer is the kind that the plan declares, whatever the state is, and
a rejection is due to some type of the plan that does not fit (`BuildContext.IsRejected`). A request
that may nest at all leaves the type there (`serves_resolve`).
-/

set_option autoImplicit false

namespace SchemaGraft

/-! ## Reasons of rejection -/

/-- The reasons for which building a schema is rejected. -/
inductive BuildContext.IsRejected (context : BuildContext) : Rejection → Prop where
  | extended {name : Name} {extended : ExtendedObject} {rejection : Rejection}
      (planned : context.plan.extended.get? name = some extended)
      (reason : extended.IsRejected (Build.declaredKind? context) rejection) :
      context.IsRejected rejection
  | added {name : Name} {definition : TypeDefinition} {rejection : Rejection}
      (planned : context.plan.newTypes.get? name = some definition)
      (reason : definition.IsRejected (Build.declaredKind? context) rejection) :
      context.IsRejected rejection
  | directive {rejection : Rejection}
      (repeats : RepeatsDirective (memberMentions context.base.directives.entries)
        (context.plan.newDirectives.map fun definition =>
          ⟨definition.value.name, definition.location⟩) rejection) :
      context.IsRejected rejection
  | directiveReference {definition : Node DirectiveDefinition} {rejection : Rejection}
      (member : definition ∈ context.plan.newDirectives)
      (unmet : LeavesUnmet (Build.declaredKind? context) definition.directiveReferences rejection) :
      context.IsRejected rejection

namespace BuildState

variable {context : BuildContext}

/-! ## Beginning and finishing a type -/

/-- The state after something was noted about a name. -/
def withSlot (state : BuildState) (name : Name) (slot : BuildSlot) : BuildState :=
  { state with slots := state.slots.insert name slot }

theorem get?_withSlot (state : BuildState) (name other : Name) (slot : BuildSlot) :
    (state.withSlot name slot).slots.get? other =
      if (name == other) = true then some slot else state.slots.get? other :=
  OrderedMap.get?_insert state.slots name other slot

theorem Grows.withSlot {state : BuildState} {name : Name} {slot : BuildSlot}
    (absent : state.slots.get? name = none) {other : Name} {kept : BuildSlot}
    (found : state.slots.get? other = some kept) :
    (state.withSlot name slot).slots.get? other = some kept := by
  rw [get?_withSlot, if_neg, found]
  intro same
  rw [OrderedMap.get?_congr _ same, found] at absent
  cases absent

/-- What is there has the kind that the plan declares. -/
theorem Sound.declaredKind?_eq {state : BuildState} (sound : state.Sound context) {name : Name}
    {slot : BuildSlot} (found : state.slots.get? name = some slot) :
    Build.declaredKind? context name = some slot.kind := by
  cases slot with
  | inProgress kind => exact sound.promised found
  | built type => exact (sound.built found).declaredKind?_eq

/-- A type may be begun as one of the kind that is declared for its name. -/
theorem Sound.begin {state : BuildState} (sound : state.Sound context) {name : Name}
    {kind : TypeKind} (declared : Build.declaredKind? context name = some kind) :
    (state.withSlot name (.inProgress kind)).Sound context where
  promised := by
    intro other otherKind found
    rw [get?_withSlot] at found
    split at found
    · rename_i same
      cases found
      rw [← Build.declaredKind?_congr same, declared]
    · exact sound.promised found
  built := by
    intro other type found
    rw [get?_withSlot] at found
    split at found
    · cases found
    · exact sound.built found

/-- A type may be finished as what its name has in the end. -/
theorem Sound.finish {state : BuildState} (sound : state.Sound context) {name : Name}
    {type : SchemaType} (realizes : context.Realizes name type) :
    (state.withSlot name (.built type)).Sound context where
  promised := by
    intro other kind found
    rw [get?_withSlot] at found
    split at found
    · cases found
    · exact sound.promised found
  built := by
    intro other otherType found
    rw [get?_withSlot] at found
    split at found
    · rename_i same
      cases found
      exact realizes.congr same
    · exact sound.built found

/-- From before a type was begun until after it is finished, the state grows by it and by what was
built in between. -/
theorem Grows.finish {state between : BuildState} {name : Name} {kind : TypeKind}
    {type : SchemaType} (absent : state.slots.get? name = none)
    (grows : (state.withSlot name (.inProgress kind)).Grows between) :
    state.Grows (between.withSlot name (.built type)) where
  keeps := by
    intro other slot found
    rw [get?_withSlot, if_neg, grows.keeps (Grows.withSlot absent found)]
    intro same
    rw [OrderedMap.get?_congr _ same, found] at absent
    cases absent
  finishes := by
    intro other otherKind found
    rw [get?_withSlot] at found
    split at found
    · cases found
    · rename_i other_ne
      have begun := grows.finishes found
      rwa [get?_withSlot, if_neg other_ne] at begun

/-- A type of the base schema is finished as soon as it is asked for. -/
theorem Grows.finish_at_once {state : BuildState} {name : Name} {type : SchemaType}
    (absent : state.slots.get? name = none) : state.Grows (state.withSlot name (.built type)) where
  keeps := fun found => Grows.withSlot absent found
  finishes := by
    intro other kind found
    rw [get?_withSlot] at found
    split at found
    · cases found
    · exact found

theorem contains_withSlot (state : BuildState) (name : Name) (slot : BuildSlot) :
    (state.withSlot name slot).slots.contains name = true := by
  rw [OrderedMap.contains_eq_isSome_get?, get?_withSlot, if_pos BEq.rfl]
  rfl

end BuildState

namespace Build

variable {context : BuildContext} {fails : Rejection → Prop} {resolve : Resolve}

/-! ## One request -/

/-- What a request gives in a state: the kind that the plan declares, in a sound state that has
grown. If there is such a kind, the type is there afterwards. -/
structure Served (context : BuildContext) (state : BuildState) (name : Name)
    (kind : Option TypeKind) (next : BuildState) : Prop where
  kind : kind = declaredKind? context name
  sound : next.Sound context
  grows : state.Grows next
  stored : (declaredKind? context name).isSome = true → next.slots.contains name = true

/-- Requests are served from every sound state, or rejected for a reason. -/
def Serves (context : BuildContext) (fails : Rejection → Prop) (resolve : Resolve) : Prop :=
  ∀ name (state : BuildState), state.Sound context →
    match (resolve name).run state with
    | .ok kind next => Served context state name kind next
    | .error rejection _ => fails rejection

theorem Serves.answers (serves : Serves context fails resolve) :
    Answers context fails resolve := by
  intro name state sound
  have served := serves name state sound
  cases result : (resolve name).run state with
  | error rejection _ =>
      rw [result] at served
      exact served
  | ok kind next =>
      rw [result] at served
      exact ⟨served.kind, served.sound, served.grows⟩

/-- A type is begun, built and finished. -/
theorem run_build {α : Type} {name : Name} {kind : TypeKind} {event : Event} {wrap : α → SchemaType}
    {action : Build α} (declared : declaredKind? context name = some kind)
    (meets : Meets context action (fun value => context.Realizes name (wrap value)) fails)
    {state : BuildState} (sound : state.Sound context) (absent : state.slots.get? name = none) :
    match (do
      store name (.inProgress kind)
      let value ← action
      record event
      store name (.built (wrap value))
      return some kind : Build (Option TypeKind)).run state with
    | .ok answer next => Served context state name answer next
    | .error rejection _ => fails rejection := by
  have built := meets _ (sound.begin declared)
  simp only [store, record, EStateM.run_bind, EStateM.run_modify]
  unfold BuildState.withSlot at built
  cases result : action.run { state with slots := state.slots.insert name (.inProgress kind) } with
  | error rejection _ =>
      rw [result] at built
      exact built
  | ok value between =>
      rw [result] at built
      obtain ⟨realizes, finished, grows⟩ := built
      -- The event that is recorded in between says nothing about the types.
      have noted := finished.finish realizes
      have grown : state.Grows (between.withSlot name (.built (wrap value))) :=
        .finish absent grows
      have stored := BuildState.contains_withSlot between name (.built (wrap value))
      exact
        { kind := declared.symm
          sound := ⟨noted.promised, noted.built⟩
          grows := ⟨grown.keeps, grown.finishes⟩
          stored := fun _ => stored }

/-- A type that has not been begun is built by answering the requests that arise from it. -/
theorem serves_begin? (answers : Answers context context.IsRejected resolve) (name : Name)
    {state : BuildState} (sound : state.Sound context) (absent : state.slots.get? name = none) :
    match (begin? context resolve name).run state with
    | .ok kind next => Served context state name kind next
    | .error rejection _ => context.IsRejected rejection := by
  unfold begin?
  cases planned : context.plan.extended.get? name with
  | some extended =>
      refine run_build (declaredKind?_of_extended planned) ?_ sound absent
      refine (meets_extendObject answers fun rejection reason => .extended planned reason).mono ?_
      rintro type ⟨fits, extension⟩
      exact .extended planned fits extension
  | none =>
      cases found : context.base.types.get? name with
      | some type =>
          have realizes := BuildContext.Realizes.kept planned found
          exact
            { kind := realizes.declaredKind?_eq.symm
              sound := sound.finish realizes
              grows := .finish_at_once absent
              stored := fun _ => state.contains_withSlot name (.built type) }
      | none =>
          have declared := declaredKind?_of_unextended planned
          cases added : context.plan.newTypes.get? name with
          | some definition =>
              rw [found, added] at declared
              refine run_build declared ?_ sound absent
              refine (meets_buildType answers definition
                fun rejection reason => .added added reason).mono ?_
              rintro type ⟨fits, makes⟩
              exact .added planned found added fits makes
          | none =>
              rw [found, added] at declared
              exact
                { kind := declared.symm
                  sound := sound
                  grows := .refl state
                  stored := by simp [declared] }

/-- A request is served if those that arise from it are answered. -/
theorem serves_resolveWith (answers : Answers context context.IsRejected resolve) :
    Serves context context.IsRejected (resolveWith context resolve) := by
  intro name state sound
  simp only [resolveWith, EStateM.run_bind, EStateM.run_get]
  cases found : state.slots.get? name with
  | none => exact serves_begin? answers name sound found
  | some slot =>
      exact
        { kind := (sound.declaredKind?_eq found).symm
          sound := sound
          grows := .refl state
          stored := fun _ => OrderedMap.contains_of_get? found }

/-- **Requests are answered alike, however deep they may nest.** -/
theorem answers_resolveWithin (context : BuildContext) (depth : Nat) :
    Answers context context.IsRejected (resolveWithin context depth) := by
  -- Where no request may nest, the answer is still that of the plan, only nothing is built.
  induction depth with
  | zero => exact fun name => .pure rfl
  | succ depth ih => exact (serves_resolveWith ih).answers

theorem serves_resolve (context : BuildContext) :
    Serves context context.IsRejected (Build.resolve context) :=
  serves_resolveWith (answers_resolveWithin context _)

/-! ## Requests in a row -/

/-- After requests for types of the plan, all of them are there. -/
theorem run_resolveAll (serves : Serves context context.IsRejected resolve) (names : List Name)
    {state : BuildState} (sound : state.Sound context) :
    match (resolveAll resolve names).run state with
    | .ok _ next => next.Sound context ∧ state.Grows next ∧
        ∀ name ∈ names, (declaredKind? context name).isSome = true →
          next.slots.contains name = true
    | .error rejection _ => context.IsRejected rejection := by
  induction names generalizing state with
  | nil => exact ⟨sound, .refl state, by simp⟩
  | cons name rest ih =>
      have served := serves name state sound
      simp only [resolveAll, EStateM.run_bind]
      cases result : (resolve name).run state with
      | error rejection _ =>
          rw [result] at served
          exact served
      | ok kind next =>
          rw [result] at served
          have later := ih served.sound
          simp only
          cases last : (resolveAll resolve rest).run next with
          | error rejection _ =>
              rw [last] at later
              exact later
          | ok _ final =>
              rw [last] at later
              obtain ⟨sound, grows, stored⟩ := later
              refine ⟨sound, served.grows.trans grows, ?_⟩
              rintro other member declared
              rcases List.mem_cons.1 member with rfl | member
              · have present := served.stored declared
                obtain ⟨slot, found⟩ := (OrderedMap.contains_iff_exists_value _ _).1 present
                exact OrderedMap.contains_of_get? (grows.keeps found)
              · exact stored other member declared

end Build

end SchemaGraft
