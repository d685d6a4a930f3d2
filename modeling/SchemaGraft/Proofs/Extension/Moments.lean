import Mathlib.Logic.Relation
import SchemaGraft.Proofs.Extension.Laziness
import SchemaGraft.Proofs.Extension.Outcome

/-!
# The moments of a build

A build is a function, and says nothing about what goes on inside. Between its steps there is a
moment: some types are in progress, one inside the other, of each a part of the inquiry is left, and
the slots hold what has been begun and built (`Build.Moment`). A step answers the next question from
the slots, begins a type, or finishes one (`Build.Step`).

**The functions take these steps.** Whatever a course of questions gives when it is run, the steps
lead there (`Build.follows_run`), and so it is for the build of a whole schema
(`Build.exists_path_schema`).

**What a step keeps.** The slots are sound at every moment, and what is left of each type in
progress ends with the type that its name is to have (`Build.Moment.IsSound`, `Build.Step.isSound`).

**Main result** (`Build.transparent_throughout`). At every moment, the answer to a request does not
show what the slots hold, and a request only adds to them (`Build.Moment.IsTransparent`).
-/

set_option autoImplicit false

namespace SchemaGraft

namespace Build

/-- What the slots of names hold. -/
abbrev Slots := NameMap BuildSlot

/-! ## Steps -/

/-- The types in progress around an inquiry, innermost first: the name that was asked for, what is
made of the value with which the inquiry ends, and the inquiry that waits for the answer. -/
inductive Stack : Type → Type 1 where
  | top {α : Type} : Stack α
  | inside {α β : Type} (name : Name) (kind : TypeKind) (wrap : α → SchemaType)
      (next : Option TypeKind → Inquiry β) (outer : Stack β) : Stack α

/-- A moment between two steps. -/
structure Moment where
  {α : Type}
  /-- What is left of the innermost inquiry. -/
  inquiry : Inquiry α
  stack : Stack α
  slots : Slots

/-- One step of a build. -/
inductive Step (context : BuildContext) : Moment → Moment → Prop where
  | lookUp {α : Type} {name : Name} {next : Option TypeKind → Inquiry α} {stack : Stack α}
      {slots : Slots} {slot : BuildSlot} (found : slots.get? name = some slot) :
      Step context ⟨.ask name next, stack, slots⟩ ⟨next (some slot.kind), stack, slots⟩
  | extend {α : Type} {name : Name} {next : Option TypeKind → Inquiry α} {stack : Stack α}
      {slots : Slots} {extended : ExtendedObject} {inquiry : Inquiry (Node ObjectLikeType)}
      (absent : slots.get? name = none)
      (planned : context.plan.extended.get? name = some extended)
      (course : ∀ resolve, extendObject context resolve name extended = inquiry.run resolve) :
      Step context ⟨.ask name next, stack, slots⟩
        ⟨inquiry, .inside name .object .object next stack, slots.insert name (.inProgress .object)⟩
  | keep {α : Type} {name : Name} {next : Option TypeKind → Inquiry α} {stack : Stack α}
      {slots : Slots} {type : SchemaType} (absent : slots.get? name = none)
      (unplanned : context.plan.extended.get? name = none)
      (found : context.base.types.get? name = some type) :
      Step context ⟨.ask name next, stack, slots⟩
        ⟨next (some type.kind), stack, slots.insert name (.built type)⟩
  | add {α : Type} {name : Name} {next : Option TypeKind → Inquiry α} {stack : Stack α}
      {slots : Slots} {definition : TypeDefinition} {inquiry : Inquiry SchemaType}
      (absent : slots.get? name = none) (unplanned : context.plan.extended.get? name = none)
      (missing : context.base.types.get? name = none)
      (planned : context.plan.newTypes.get? name = some definition)
      (course : ∀ resolve, buildType context resolve definition = inquiry.run resolve) :
      Step context ⟨.ask name next, stack, slots⟩
        ⟨inquiry, .inside name definition.kind id next stack,
          slots.insert name (.inProgress definition.kind)⟩
  | miss {α : Type} {name : Name} {next : Option TypeKind → Inquiry α} {stack : Stack α}
      {slots : Slots} (absent : slots.get? name = none)
      (unplanned : context.plan.extended.get? name = none)
      (missing : context.base.types.get? name = none)
      (unknown : context.plan.newTypes.get? name = none) :
      Step context ⟨.ask name next, stack, slots⟩ ⟨next none, stack, slots⟩
  | finish {α β : Type} {name : Name} {kind : TypeKind} {wrap : α → SchemaType}
      {next : Option TypeKind → Inquiry β} {outer : Stack β} {slots : Slots} {value : α} :
      Step context ⟨.done value, .inside name kind wrap next outer, slots⟩
        ⟨next (some kind), outer, slots.insert name (.built (wrap value))⟩

/-- Any number of steps. -/
abbrev Steps (context : BuildContext) : Moment → Moment → Prop :=
  Relation.ReflTransGen (Step context)

/-- A moment that a build can come to, whatever it asks for at the top. -/
def Moment.IsReached (context : BuildContext) (moment : Moment) : Prop :=
  ∃ (α : Type) (inquiry : Inquiry α), Steps context ⟨inquiry, .top, OrderedMap.empty⟩ moment

/-! ## The functions take these steps -/

variable {context : BuildContext} {α β : Type}

/-- The steps from a moment lead to where a run ended: to what is to be done with its value, or to
its rejection. -/
def Leads (context : BuildContext) (start : Moment) (goal : α → Slots → Moment) :
    EStateM.Result Rejection BuildState α → Prop
  | .ok value state => Steps context start (goal value state.slots)
  | .error rejection state => ∃ (β : Type) (stack : Stack β),
      Steps context start ⟨.reject rejection, stack, state.slots⟩

theorem Leads.head {start next : Moment} {goal : α → Slots → Moment}
    {result : EStateM.Result Rejection BuildState α} (step : Step context start next)
    (leads : Leads context next goal result) : Leads context start goal result := by
  cases result with
  | ok value state => exact Relation.ReflTransGen.head step leads
  | error rejection state =>
      obtain ⟨β, stack, steps⟩ := leads
      exact ⟨β, stack, steps.head step⟩

theorem Leads.bind {start : Moment} {goal : α → Slots → Moment} {last : β → Slots → Moment}
    {action : Build α} {more : α → Build β} {state : BuildState}
    (first : Leads context start goal (action.run state))
    (second : ∀ value next, action.run state = .ok value next →
      Steps context start (goal value next.slots) →
      Leads context (goal value next.slots) last ((more value).run next)) :
    Leads context start last ((action >>= more).run state) := by
  rw [EStateM.run_bind]
  cases result : action.run state with
  | error rejection final =>
      rw [result] at first
      exact first
  | ok value next =>
      rw [result] at first
      have later := second value next result first
      show Leads context start last ((more value).run next)
      cases final : (more value).run next with
      | ok value final =>
          rw [final] at later
          exact first.trans later
      | error rejection final =>
          rw [final] at later
          obtain ⟨β, stack, steps⟩ := later
          exact ⟨β, stack, first.trans steps⟩

/-- A step forgets nothing that was begun. -/
theorem Step.contains {start next : Moment} (step : Step context start next) {name : Name}
    (present : start.slots.contains name = true) : next.slots.contains name = true := by
  cases step with
  | lookUp _ | miss _ _ _ _ => exact present
  | extend _ _ _ | keep _ _ _ | add _ _ _ _ _ | finish =>
      rw [OrderedMap.contains_insert, present, Bool.or_true]

theorem Steps.contains {start next : Moment} (steps : Steps context start next) {name : Name}
    (present : start.slots.contains name = true) : next.slots.contains name = true := by
  induction steps with
  | refl => exact present
  | tail _ step ih => exact step.contains ih

/-- Steps leave no more names to be begun than there were. -/
theorem Steps.unbegun_le {start next : Moment} (steps : Steps context start next)
    (events laterEvents : List Event) :
    unbegun context ⟨next.slots, laterEvents⟩ ≤ unbegun context ⟨start.slots, events⟩ :=
  countP_absent_le steps.contains _

/-- Inquiries with fewer than some number of names left to be begun take steps. -/
def Follows (context : BuildContext) (bound : Nat) : Prop :=
  ∀ {α : Type} (inquiry : Inquiry α) (stack : Stack α) (state : BuildState),
    unbegun context state < bound →
    Leads context ⟨inquiry, stack, state.slots⟩ (fun value slots => ⟨.done value, stack, slots⟩)
      ((inquiry.run (Build.resolve context)).run state)

/-- A type is begun, its inquiry takes steps, and it is finished. -/
theorem leads_build {bound : Nat} (follows : Follows context bound) {name : Name} {kind : TypeKind}
    {event : Event} {wrap : α → SchemaType} {inquiry : Inquiry α}
    {next : Option TypeKind → Inquiry β} {stack : Stack β} {state : BuildState}
    (few : unbegun context (state.withSlot name (.inProgress kind)) < bound)
    (begins : Step context ⟨.ask name next, stack, state.slots⟩
      ⟨inquiry, .inside name kind wrap next stack, state.slots.insert name (.inProgress kind)⟩) :
    Leads context ⟨.ask name next, stack, state.slots⟩
      (fun answer slots => ⟨next answer, stack, slots⟩)
      ((do
        store name (.inProgress kind)
        let value ← inquiry.run (Build.resolve context)
        record event
        store name (.built (wrap value))
        return some kind : Build (Option TypeKind)).run state) := by
  have built : Leads context
      ⟨inquiry, .inside name kind wrap next stack, state.slots.insert name (.inProgress kind)⟩
      (fun answer slots => ⟨next answer, stack, slots⟩)
      ((do
        let value ← inquiry.run (Build.resolve context)
        record event
        store name (.built (wrap value))
        return some kind : Build (Option TypeKind)).run (state.withSlot name (.inProgress kind))) :=
    (follows inquiry (.inside name kind wrap next stack) _ few).bind
      fun value between _ _ => Relation.ReflTransGen.single .finish
  exact built.head begins

/-- One request takes steps. -/
theorem leads_resolve {bound : Nat} (follows : Follows context bound) (name : Name)
    (next : Option TypeKind → Inquiry α) (stack : Stack α) {state : BuildState}
    (few : unbegun context state < bound + 1) :
    Leads context ⟨.ask name next, stack, state.slots⟩
      (fun answer slots => ⟨next answer, stack, slots⟩)
      ((Build.resolve context name).run state) := by
  rw [← resolveWith_resolve]
  simp only [resolveWith, EStateM.run_bind, EStateM.run_get]
  cases absent : state.slots.get? name with
  | some slot => exact .single (.lookUp absent)
  | none =>
      have fewer : ∀ kind, IsPlanned context name →
          unbegun context (state.withSlot name (.inProgress kind)) < bound := by
        intro kind planned
        exact Nat.lt_of_lt_of_le (unbegun_withSlot_lt planned absent _) (Nat.le_of_lt_succ few)
      unfold IsPlanned builtEvent? at fewer
      dsimp only
      unfold begin?
      cases planned : context.plan.extended.get? name with
      | some extended =>
          obtain ⟨inquiry, course⟩ := isInquiry_extendObject context name extended
          dsimp only
          rw [show extendObject context (Build.resolve context) name extended = _ from course _]
          exact leads_build follows (fewer _ (by simp [planned])) (.extend absent planned course)
      | none =>
          cases missing : context.base.types.get? name with
          | some type => exact .single (.keep absent planned missing)
          | none =>
              cases added : context.plan.newTypes.get? name with
              | some definition =>
                  obtain ⟨inquiry, course⟩ := isInquiry_buildType context definition
                  dsimp only
                  rw [show buildType context (Build.resolve context) definition = _ from course _]
                  have begins : Step context _ ⟨inquiry, .inside name _ id next stack, _⟩ :=
                    .add absent planned missing added course
                  refine leads_build follows (fewer _ ?_) begins
                  simp [planned, OrderedMap.contains_eq_isSome_get?, missing, added]
              | none => exact .single (.miss absent planned missing added)

/-- **An inquiry takes the steps of a build.** -/
theorem follows_run (context : BuildContext) (bound : Nat) : Follows context bound := by
  -- A type that is begun leaves fewer names for the inquiry that builds it.
  induction bound with
  | zero => exact fun _ _ _ few => absurd few (Nat.not_lt_zero _)
  | succ bound ih =>
      intro α inquiry stack
      induction inquiry with
      | done value => exact fun state _ => .refl
      | reject rejection => exact fun state _ => ⟨_, stack, .refl⟩
      | ask name next ihNext =>
          intro state few
          refine (leads_resolve ih name next stack few).bind fun answer after _ steps => ?_
          refine ihNext answer after (Nat.lt_of_le_of_lt ?_ few)
          exact steps.unbegun_le state.events after.events

/-! ## The build of a schema -/

/-- Two states have the same slots. -/
def SameSlots (left right : BuildState) : Prop := left.slots = right.slots

/-- What was recorded does not matter to requests. -/
theorem tracks_resolveWithin_sameSlots (context : BuildContext) (depth : Nat) (name : Name) :
    Tracks SameSlots SameSlots SameSlots (resolveWithin context depth name)
      (resolveWithin context depth name) := by
  induction depth generalizing name with
  | zero => exact .pure _ fun _ _ same => same
  | succ depth ih =>
      intro left right same
      simp only [resolveWithin, resolveWith, EStateM.run_bind, EStateM.run_get,
        show left.slots = right.slots from same]
      cases right.slots.get? name with
      | some slot => exact .ok same
      | none =>
          exact tracks_begin? ih (fun _ _ same => same)
            (fun _ _ _ _ same => BuildState.slots_withSlot_congr same name _)
            (fun _ _ _ _ _ same => BuildState.slots_withSlot_congr same name _)
            (fun _ _ _ _ same => BuildState.slots_withSlot_congr same name _)
            (fun _ _ _ same => same) left right same

/-- An action asks what some inquiry asks, and besides only records events. -/
def IsLikeInquiry (context : BuildContext) (action : Build α) : Prop :=
  ∃ inquiry : Inquiry α, Tracks SameSlots SameSlots SameSlots action
    (inquiry.run (Build.resolve context))

theorem IsInquiry.isLikeInquiry {action : Resolve → Build α} (inquires : IsInquiry action) :
    IsLikeInquiry context (action (Build.resolve context)) := by
  obtain ⟨inquiry, course⟩ := inquires
  refine ⟨inquiry, ?_⟩
  rw [course]
  exact inquiry.tracks (fun name => tracks_resolveWithin_sameSlots context _ name)
    fun _ _ same => same

theorem IsLikeInquiry.bind {action : Build α} {more : α → Build β}
    (first : IsLikeInquiry context action)
    (second : ∀ value, IsLikeInquiry context (more value)) :
    IsLikeInquiry context (action >>= more) := by
  obtain ⟨inquiry, tracks⟩ := first
  choose others others_track using second
  refine ⟨inquiry.andThen others, ?_⟩
  rw [Inquiry.run_andThen]
  exact tracks.bind others_track

theorem isLikeInquiry_record (event : Event) : IsLikeInquiry context (record event) :=
  ⟨.done (), fun _ _ same => .ok same⟩

theorem isLikeInquiry_addDirective (directives : NameMap (Node DirectiveDefinition))
    (definition : Node DirectiveDefinition) :
    IsLikeInquiry context (addDirective (Build.resolve context) directives definition) := by
  unfold addDirective
  dsimp only
  cases directives.get? definition.value.name with
  | some previous => exact (IsInquiry.throw _).isLikeInquiry
  | none =>
      exact (isInquiry_referenceDirectiveArguments _ _).isLikeInquiry.bind fun _ =>
        (isLikeInquiry_record _).bind fun _ => (IsInquiry.pure _).isLikeInquiry

theorem isLikeInquiry_addDirectives (definitions : List (Node DirectiveDefinition))
    (directives : NameMap (Node DirectiveDefinition)) :
    IsLikeInquiry context
      (definitions.foldlM (addDirective (Build.resolve context)) directives) := by
  induction definitions generalizing directives with
  | nil => exact (IsInquiry.pure _).isLikeInquiry
  | cons definition rest ih =>
      rw [List.foldlM_cons]
      exact (isLikeInquiry_addDirective directives definition).bind fun _ => ih _

/-- What the build of a schema asks for: the types of the arguments of directives, and all types of
the plan. -/
theorem isLikeInquiry_questions (context : BuildContext) :
    IsLikeInquiry context (do
      let directives ← context.plan.newDirectives.foldlM (addDirective (Build.resolve context))
        context.base.directives
      resolveAll (Build.resolve context) (context.plan.extended.keys ++ context.plan.newTypes.keys)
      return directives) :=
  (isLikeInquiry_addDirectives _ _).bind fun _ =>
    (isInquiry_resolveAll _).isLikeInquiry.bind fun _ => (IsInquiry.pure _).isLikeInquiry

/-- Steps lead where an action ends that asks what they ask. -/
theorem Leads.of_endTogether {start : Moment} {goal : α → Slots → Moment}
    {left right : EStateM.Result Rejection BuildState α}
    (ends : EndTogether SameSlots SameSlots left right) (leads : Leads context start goal right) :
    Leads context start goal left := by
  cases ends with
  | @ok value last other same =>
      show Steps context start (goal value last.slots)
      rw [show last.slots = other.slots from same]
      exact leads
  | @error rejection last other same =>
      show ∃ (β : Type) (stack : Stack β),
        Steps context start ⟨.reject rejection, stack, last.slots⟩
      rw [show last.slots = other.slots from same]
      exact leads

/-- **The build of a schema is a path through moments.** It begins with empty slots and ends where
the build ends. -/
theorem exists_path_schema (context : BuildContext) (sources : SourceMap) :
    ∃ inquiry : Inquiry (NameMap (Node DirectiveDefinition)),
      Leads context ⟨inquiry, .top, OrderedMap.empty⟩
        (fun schema slots => ⟨.done schema.directives, .top, slots⟩)
        ((schema context sources).run .initial) := by
  obtain ⟨inquiry, tracks⟩ := isLikeInquiry_questions context
  have asked := (follows_run context _ inquiry .top .initial (Nat.lt_succ_self _)).of_endTogether
    (tracks _ _ rfl)
  have whole : schema context sources = (do
      let directives ← context.plan.newDirectives.foldlM (addDirective (Build.resolve context))
        context.base.directives
      resolveAll (Build.resolve context) (context.plan.extended.keys ++ context.plan.newTypes.keys)
      return directives) >>= fun directives => do
        return {
          sources := sources
          directives := directives
          types := collect context (← get).slots
          roots := context.base.roots } := by
    simp only [schema, bind_assoc, pure_bind]
  refine ⟨inquiry, ?_⟩
  rw [whole]
  exact asked.bind fun directives last _ _ => Relation.ReflTransGen.refl

/-! ## What a step keeps -/

/-- The value with which an inquiry ends if its questions are answered with some kinds. -/
def Inquiry.outcome? (kinds : Name → Option TypeKind) : Inquiry α → Option α
  | done value => some value
  | reject _ => none
  | ask name next => (next (kinds name)).outcome? kinds

/-- What is left of each type in progress ends with the type that its name is to have. -/
def Stack.Fits (context : BuildContext) : {α : Type} → Stack α → Inquiry α → Prop
  | _, .top, _ => True
  | _, .inside name kind wrap next outer, inquiry =>
    (∀ value, inquiry.outcome? (declaredKind? context) = some value →
      context.Realizes name (wrap value)) ∧ outer.Fits context (next (some kind))

/-- Everything at a moment is right. -/
structure Moment.IsSound (context : BuildContext) (moment : Moment) : Prop where
  slots : ∀ events, BuildState.Sound context ⟨moment.slots, events⟩
  stack : moment.stack.Fits context moment.inquiry

/-- What requests for types give by themselves does not depend on the slots. -/
theorem Inquiry.run_of_outcome? {inquiry : Inquiry α} {value : α}
    (ends : inquiry.outcome? (declaredKind? context) = some value) (state : BuildState) :
    (inquiry.run (resolveWithin context 0)).run state = .ok value state := by
  induction inquiry with
  | done other =>
      cases ends
      rfl
  | reject rejection => cases ends
  | ask name next ih => exact ih _ ends

theorem Inquiry.holds_of_outcome? {inquiry : Inquiry α} {value : α} {holds : α → Prop}
    {fails : Rejection → Prop}
    (meets : Meets context (inquiry.run (resolveWithin context 0)) holds fails)
    (ends : inquiry.outcome? (declaredKind? context) = some value) : holds value := by
  have here := meets .initial (BuildState.sound_initial context)
  rw [Inquiry.run_of_outcome? ends] at here
  exact here.1

/-- Only the outcome of an inquiry matters to what is around it. -/
theorem Stack.Fits.congr {stack : Stack α} {inquiry other : Inquiry α}
    (fits : stack.Fits context inquiry)
    (same : other.outcome? (declaredKind? context) = inquiry.outcome? (declaredKind? context)) :
    stack.Fits context other := by
  cases stack with
  | top => trivial
  | inside name kind wrap next outer =>
      unfold Fits at fits ⊢
      rwa [same]

/-- The question that is asked at a moment may be answered with the declared kind. -/
theorem Stack.Fits.answer {stack : Stack α} {name : Name} {next : Option TypeKind → Inquiry α}
    (fits : stack.Fits context (.ask name next)) {kind : Option TypeKind}
    (declared : declaredKind? context name = kind) : stack.Fits context (next kind) :=
  fits.congr (by rw [Inquiry.outcome?, declared])

/-- **A step keeps everything right.** -/
theorem Step.isSound {moment next : Moment} (step : Step context moment next)
    (sound : moment.IsSound context) : next.IsSound context := by
  obtain ⟨slots, fits⟩ := sound
  cases step with
  | lookUp found => exact ⟨slots, fits.answer ((slots []).declaredKind?_eq found)⟩
  | @extend _ name _ _ _ extended _ absent planned course =>
      have declared := declaredKind?_of_extended planned
      refine ⟨fun events => (slots events).begin declared, fun value ends => ?_,
        fits.answer declared⟩
      have meets : Meets context (extendObject context (resolveWithin context 0) name extended) _
          context.IsRejected :=
        meets_extendObject (answers_resolveWithin context 0)
          fun _ reason => .extended planned reason
      rw [course] at meets
      obtain ⟨fits, extension⟩ := Inquiry.holds_of_outcome? meets ends
      exact .extended planned fits extension
  | keep absent unplanned found =>
      have realizes := BuildContext.Realizes.kept unplanned found
      exact ⟨fun events => (slots events).finish realizes, fits.answer realizes.declaredKind?_eq⟩
  | add absent unplanned missing planned course =>
      have declared := declaredKind?_of_unextended unplanned
      rw [missing, planned] at declared
      refine ⟨fun events => (slots events).begin declared, fun value ends => ?_,
        fits.answer declared⟩
      have meets := meets_buildType (answers_resolveWithin context 0) _
        fun rejection reason => .added planned reason
      rw [course] at meets
      obtain ⟨fits, makes⟩ := Inquiry.holds_of_outcome? meets ends
      exact .added unplanned missing planned fits makes
  | miss absent unplanned missing unknown =>
      have declared := declaredKind?_of_unextended unplanned
      rw [missing, unknown] at declared
      exact ⟨slots, fits.answer declared⟩
  | finish =>
      obtain ⟨ends, outer⟩ := fits
      exact ⟨fun events => (slots events).finish (ends _ rfl), outer⟩

/-- **Everything is right at every moment that a build comes to.** -/
theorem Moment.IsReached.isSound {moment : Moment} (reached : moment.IsReached context) :
    moment.IsSound context := by
  obtain ⟨α, inquiry, steps⟩ := reached
  induction steps with
  | refl => exact ⟨fun _ => ⟨(nomatch ·), (nomatch ·)⟩, trivial⟩
  | tail _ step ih => exact step.isSound ih

/-! ## Requests at a moment -/

/-- What the slots hold at a moment does not show in the answers to requests, and requests only add
to it. -/
structure Moment.IsTransparent (context : BuildContext) (moment : Moment) : Prop where
  /-- Whether the type is yet to be begun, in progress or built, the answer is its kind: that of an
  extended type, else of the base schema, else of the definition. -/
  answers : ∀ {events name kind next},
    (Build.resolve context name).run ⟨moment.slots, events⟩ = .ok kind next →
      kind = if context.plan.extended.contains name then some .object
        else ((context.base.types.get? name).map (·.kind)).or
          ((context.plan.newTypes.get? name).map (·.kind))
  /-- A type that is in progress or built is not asked for in vain, and nothing happens. -/
  recalls : ∀ {events name slot}, moment.slots.get? name = some slot →
    (Build.resolve context name).run ⟨moment.slots, events⟩ =
      .ok (some slot.kind) ⟨moment.slots, events⟩
  /-- What is built stays as it is, and what is in progress stays so, with its kind. -/
  keeps : ∀ {events name kind next},
    (Build.resolve context name).run ⟨moment.slots, events⟩ = .ok kind next →
      ∀ {other slot}, moment.slots.get? other = some slot → next.slots.get? other = some slot
  /-- Nothing else is left in progress. -/
  finishes : ∀ {events name kind next},
    (Build.resolve context name).run ⟨moment.slots, events⟩ = .ok kind next →
      ∀ {other promised}, next.slots.get? other = some (.inProgress promised) →
        moment.slots.get? other = some (.inProgress promised)

/-- A request is answered at once for what is there. -/
theorem resolve_of_get? {name : Name} {slot : BuildSlot} {state : BuildState}
    (found : state.slots.get? name = some slot) :
    (Build.resolve context name).run state = .ok (some slot.kind) state := by
  rw [← resolveWith_resolve]
  simp only [resolveWith, EStateM.run_bind, EStateM.run_get, found]
  rfl

theorem Moment.IsSound.isTransparent {moment : Moment} (sound : moment.IsSound context) :
    moment.IsTransparent context := by
  have served : ∀ {events name kind next},
      (Build.resolve context name).run ⟨moment.slots, events⟩ = .ok kind next →
        Served context ⟨moment.slots, events⟩ name kind next := by
    intro events name kind next result
    have served := serves_resolve context name _ (sound.slots events)
    rwa [result] at served
  exact
    { answers := fun result => (served result).kind
      recalls := fun found => resolve_of_get? found
      keeps := fun result => (served result).grows.keeps
      finishes := fun result => (served result).grows.finishes }

/-- **Requests are transparent at every moment of a build.** The build of a schema is a path through
moments, and at all moments on any path, requests answer and add to the slots alike. -/
theorem transparent_throughout (context : BuildContext) (sources : SourceMap) :
    (∃ inquiry : Inquiry (NameMap (Node DirectiveDefinition)),
      Leads context ⟨inquiry, .top, OrderedMap.empty⟩
        (fun schema slots => ⟨.done schema.directives, .top, slots⟩)
        ((schema context sources).run .initial)) ∧
      ∀ moment : Moment, moment.IsReached context → moment.IsTransparent context :=
  ⟨exists_path_schema context sources, fun _ reached => reached.isSound.isTransparent⟩

/-- While `Link` is in progress, a request for it gets its kind, and so does one for `Tree`, which
is built with `Link` still in progress. -/
theorem transparent_throughout_link :
    ∃ (plan : ExtensionPlan) (moment : Moment),
      ExtensionPlan.ofDefinitions linkSchema treeDocument.definitions = .ok plan ∧
      let context := ExtensionRun.context ⟨1, .none⟩ linkSchema plan
      moment.IsReached context ∧ moment.IsTransparent context ∧
      moment.slots.get? (.plain "Link") = some (.inProgress .object) ∧
      (Build.resolve context (.plain "Link")).run ⟨moment.slots, []⟩ =
        .ok (some .object) ⟨moment.slots, []⟩ ∧
      ∃ next, (Build.resolve context (.plain "Tree")).run ⟨moment.slots, []⟩ =
          .ok (some .object) next ∧
        next.slots.contains (.plain "Tree") = true ∧
        next.slots.get? (.plain "Link") = some (.inProgress .object) := by
  obtain ⟨plan, planned, extended, found⟩ : ∃ plan,
      ExtensionPlan.ofDefinitions linkSchema treeDocument.definitions = .ok plan ∧
      ∃ extended, plan.extended.get? (.plain "Link") = some extended := ⟨_, rfl, _, rfl⟩
  obtain ⟨inquiry, course⟩ := isInquiry_extendObject
    (ExtensionRun.context ⟨1, .none⟩ linkSchema plan) (.plain "Link") extended
  have begun : Step (ExtensionRun.context ⟨1, .none⟩ linkSchema plan)
      ⟨.ask (.plain "Link") .done, .top, OrderedMap.empty⟩ _ := .extend rfl found course
  have reached : Moment.IsReached _ _ := ⟨_, _, .single begun⟩
  have transparent := (transparent_throughout _ OrderedMap.empty).2 _ reached
  have recalled := @transparent.recalls [] (.plain "Link") (.inProgress .object) rfl
  cases planned
  exact ⟨_, _, rfl, reached, transparent, rfl, recalled, _, rfl, rfl, rfl⟩

end Build

end SchemaGraft
