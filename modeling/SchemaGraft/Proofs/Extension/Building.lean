import SchemaGraft.Proofs.Extension.Fitting

/-!
# What building does

Building asks for types while it goes, and whoever answers may build others in between. `Meets`
says what an action of building does without speaking of them: started in a sound state, it either
succeeds with a result that has a property and leaves a sound state that has only grown, or it is
rejected for a reason that has a property.

A state is sound if every type that is built is the right one and every kind that is promised for a
type in progress is the right one (`BuildState.Sound`). It grows if what is there stays and no type
is left in progress that was not so before (`BuildState.Grows`).

The lemmas go from a single reference up to whole types: `meets_extendObject` and `meets_buildType`
say that what is built fits and is the image of what the document says of it, and that it is
rejected only for a reason of its own or of a type that was asked for.
-/

set_option autoImplicit false

namespace SchemaGraft

/-- The run that building is part of. -/
def BuildContext.asRun (context : BuildContext) : ExtensionRun := ⟨context.run, context.resolvers⟩

/-! ## Sound states -/

/-- The type that a name has in the end: an extended type, a type of the base schema as it is, or a
new type. -/
inductive BuildContext.Realizes (context : BuildContext) (name : Name) : SchemaType → Prop where
  | extended {extended : ExtendedObject} {type : Node ObjectLikeType}
      (planned : context.plan.extended.get? name = some extended)
      (fits : extended.Fits (Build.declaredKind? context))
      (extension : IsExtensionOf context.asRun name extended.base extended.clauses type) :
      context.Realizes name (.object type)
  | kept {type : SchemaType} (unplanned : context.plan.extended.get? name = none)
      (found : context.base.types.get? name = some type) : context.Realizes name type
  | added {definition : TypeDefinition} {type : SchemaType}
      (unplanned : context.plan.extended.get? name = none)
      (absent : context.base.types.get? name = none)
      (planned : context.plan.newTypes.get? name = some definition)
      (fits : definition.Fits (Build.declaredKind? context))
      (makes : definition.Makes context.asRun type) : context.Realizes name type

/-- What is promised and what is built is right. -/
structure BuildState.Sound (context : BuildContext) (state : BuildState) : Prop where
  promised : ∀ {name kind}, state.slots.get? name = some (.inProgress kind) →
    Build.declaredKind? context name = some kind
  built : ∀ {name type}, state.slots.get? name = some (.built type) → context.Realizes name type

/-- What is there stays, and what is begun is finished. -/
structure BuildState.Grows (state next : BuildState) : Prop where
  keeps : ∀ {name slot}, state.slots.get? name = some slot → next.slots.get? name = some slot
  finishes : ∀ {name kind}, next.slots.get? name = some (.inProgress kind) →
    state.slots.get? name = some (.inProgress kind)

theorem BuildState.sound_initial (context : BuildContext) : BuildState.initial.Sound context :=
  ⟨fun found => (nomatch found), fun found => (nomatch found)⟩

theorem BuildState.Grows.refl (state : BuildState) : state.Grows state :=
  ⟨fun found => found, fun found => found⟩

theorem BuildState.Grows.trans {first second third : BuildState} (early : first.Grows second)
    (late : second.Grows third) : first.Grows third :=
  ⟨fun found => late.keeps (early.keeps found), fun found => early.finishes (late.finishes found)⟩

section Declared

variable {context : BuildContext} {name : Name}

theorem Build.declaredKind?_of_extended {extended : ExtendedObject}
    (planned : context.plan.extended.get? name = some extended) :
    Build.declaredKind? context name = some .object := by
  rw [declaredKind?, if_pos (OrderedMap.contains_of_get? planned)]

theorem Build.declaredKind?_of_unextended
    (unplanned : context.plan.extended.get? name = none) :
    Build.declaredKind? context name = ((context.base.types.get? name).map (·.kind)).or
      ((context.plan.newTypes.get? name).map (·.kind)) := by
  rw [OrderedMap.get?_eq_none_iff] at unplanned
  rw [declaredKind?, unplanned]
  rfl

/-- A type that is realized has the kind that the plan declares. -/
theorem BuildContext.Realizes.declaredKind?_eq {type : SchemaType}
    (realizes : context.Realizes name type) :
    Build.declaredKind? context name = some type.kind := by
  cases realizes with
  | extended planned _ _ => exact Build.declaredKind?_of_extended planned
  | kept unplanned found => simp [Build.declaredKind?_of_unextended unplanned, found]
  | added unplanned absent planned _ makes =>
      simp [Build.declaredKind?_of_unextended unplanned, absent, planned, makes.members.kind_eq]

end Declared

theorem addedField_congr {key other : Name} (same : key.text = other.text) (run : ExtensionRun)
    (type : Name) (definition : Node FieldDefinition) :
    definition.addedField run key type = definition.addedField run other type := by
  simp only [Node.addedField, same]

theorem IsExtensionOf.congr {run : ExtensionRun} {key other : Name}
    {base extended : Node ObjectLikeType} {clauses : List (Node ObjectExtension)}
    (same : key.text = other.text) (extension : IsExtensionOf run key base clauses extended) :
    IsExtensionOf run other base clauses extended where
  identity := by rw [extension.identity, same]
  location := extension.location
  description := extension.description
  name := extension.name
  interfaces := extension.interfaces
  directives := extension.directives
  fields := by
    rw [extension.fields]
    simp only [fieldEntries, addedField_congr same]

section Inversion

variable {context : BuildContext} {name : Name} {type : SchemaType}
  (realizes : context.Realizes name type)
include realizes

theorem BuildContext.Realizes.eq_of_extended {extended : ExtendedObject}
    (planned : context.plan.extended.get? name = some extended) :
    ∃ object, type = .object object ∧ extended.Fits (Build.declaredKind? context) ∧
      IsExtensionOf context.asRun name extended.base extended.clauses object := by
  cases realizes with
  | extended found fits extension =>
      rw [planned] at found
      cases found
      exact ⟨_, rfl, fits, extension⟩
  | kept unplanned _ => rw [planned] at unplanned; cases unplanned
  | added unplanned _ _ _ _ => rw [planned] at unplanned; cases unplanned

theorem BuildContext.Realizes.eq_of_kept {kept : SchemaType}
    (unplanned : context.plan.extended.get? name = none)
    (found : context.base.types.get? name = some kept) : type = kept := by
  cases realizes with
  | extended planned _ _ => rw [unplanned] at planned; cases planned
  | kept _ stored => rw [found] at stored; cases stored; rfl
  | added _ absent _ _ _ => rw [found] at absent; cases absent

theorem BuildContext.Realizes.eq_of_added {definition : TypeDefinition}
    (unplanned : context.plan.extended.get? name = none)
    (absent : context.base.types.get? name = none)
    (planned : context.plan.newTypes.get? name = some definition) :
    definition.Fits (Build.declaredKind? context) ∧ definition.Makes context.asRun type := by
  cases realizes with
  | extended planned _ _ => rw [unplanned] at planned; cases planned
  | kept _ stored => rw [absent] at stored; cases stored
  | added _ _ found fits makes =>
      rw [planned] at found
      cases found
      exact ⟨fits, makes⟩

end Inversion

/-- Only the text of a name matters for the type that it has. -/
theorem BuildContext.Realizes.congr {context : BuildContext} {name other : Name}
    {type : SchemaType} (same : (name == other) = true) (realizes : context.Realizes name type) :
    context.Realizes other type := by
  cases realizes with
  | extended planned fits extension =>
      rw [OrderedMap.get?_congr _ same] at planned
      exact .extended planned fits (extension.congr (Name.beq_iff_text_eq.1 same))
  | kept unplanned found =>
      rw [OrderedMap.get?_congr _ same] at unplanned found
      exact .kept unplanned found
  | added unplanned absent planned fits makes =>
      rw [OrderedMap.get?_congr _ same] at unplanned absent planned
      exact .added unplanned absent planned fits makes

theorem Build.declaredKind?_congr {context : BuildContext} {name other : Name}
    (same : (name == other) = true) :
    Build.declaredKind? context name = Build.declaredKind? context other := by
  simp only [Build.declaredKind?, OrderedMap.contains_congr _ same, OrderedMap.get?_congr _ same]

namespace Build

/-! ## What an action does -/

/-- From every sound state, an action succeeds as `holds` says and leaves a sound state that has
grown, or it is rejected as `fails` says. -/
def Meets {α : Type} (context : BuildContext) (action : Build α) (holds : α → Prop)
    (fails : Rejection → Prop) : Prop :=
  ∀ state : BuildState, state.Sound context →
    match action.run state with
    | .ok value next => holds value ∧ next.Sound context ∧ state.Grows next
    | .error rejection _ => fails rejection

/-- Requests are answered by the kinds that the plan declares. -/
def Answers (context : BuildContext) (fails : Rejection → Prop) (resolve : Resolve) : Prop :=
  ∀ name, Meets context (resolve name) (fun kind => kind = declaredKind? context name) fails

section Actions

variable {context : BuildContext} {fails : Rejection → Prop} {α β : Type}

theorem Meets.pure {holds : α → Prop} {value : α} (here : holds value) :
    Meets context (Pure.pure value) holds fails :=
  fun state sound => ⟨here, sound, .refl state⟩

theorem Meets.throw {holds : α → Prop} {rejection : Rejection} (here : fails rejection) :
    Meets context (MonadExcept.throw rejection : Build α) holds fails :=
  fun _ _ => here

theorem Meets.bind {action : Build α} {next : α → Build β} {middle : α → Prop} {holds : β → Prop}
    (first : Meets context action middle fails)
    (second : ∀ value, middle value → Meets context (next value) holds fails) :
    Meets context (action >>= next) holds fails := by
  intro state sound
  have early := first state sound
  rw [EStateM.run_bind]
  cases result : action.run state with
  | error rejection _ =>
      rw [result] at early
      exact early
  | ok value between =>
      rw [result] at early
      obtain ⟨here, sound, grows⟩ := early
      have late := second value here between sound
      show match (next value).run between with
        | .ok value next => holds value ∧ next.Sound context ∧ state.Grows next
        | .error rejection _ => fails rejection
      cases last : (next value).run between with
      | error rejection _ =>
          rw [last] at late
          exact late
      | ok value after =>
          rw [last] at late
          obtain ⟨here, sound, later⟩ := late
          exact ⟨here, sound, grows.trans later⟩

theorem Meets.mono {action : Build α} {holds more : α → Prop}
    (meets : Meets context action holds fails) (implies : ∀ value, holds value → more value) :
    Meets context action more fails := by
  intro state sound
  have here := meets state sound
  cases result : action.run state with
  | error rejection _ =>
      rw [result] at here
      exact here
  | ok value _ =>
      rw [result] at here
      exact ⟨implies value here.1, here.2⟩

/-- A loop keeps an invariant that speaks of the items that are done. -/
theorem Meets.foldlM {step : α → β → Build α} {items : List β} {start : α}
    (invariant : List β → α → Prop) (first : invariant [] start)
    (next : ∀ before item after value, items = before ++ item :: after → invariant before value →
      Meets context (step value item) (invariant (before ++ [item])) fails) :
    Meets context (items.foldlM step start) (invariant items) fails := by
  -- The invariant speaks of the part that is done, so the loop can be taken up anywhere in it.
  suffices remaining : ∀ (after before : List β) (value : α), items = before ++ after →
      invariant before value → Meets context (after.foldlM step value) (invariant items) fails from
    remaining items [] start rfl first
  intro after
  induction after with
  | nil =>
      rintro before value rfl here
      exact .pure (by simpa using here)
  | cons item after ih =>
      intro before value split here
      rw [List.foldlM_cons]
      refine (next before item after value split here).bind fun value here => ?_
      exact ih (before ++ [item]) value (by simpa using split) here

end Actions

end Build

end SchemaGraft
