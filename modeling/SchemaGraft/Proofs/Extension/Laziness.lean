import Mathlib.Logic.Function.Iterate
import SchemaGraft.Proofs.Extension.Inquiries
import SchemaGraft.Proofs.Extension.Requests

/-!
# Types are built on demand

A type that is asked for is begun unless it has been. Whatever asks for it in the meantime, its own
fields included, is answered from what is there. So two builds that answer requests alike stay
alike: to follow them side by side it is enough to follow what beginning a type does to the state
(`tracks_begin?`).

**The recursion ends.** A name of the plan that is begun is no longer left to be begun
(`unbegun_withSlot_lt`), and nothing that was begun is forgotten. So requests nest no deeper than
the plan is long: the recursion unfolded so many times is what it is however the innermost requests
are answered (`iterate_resolveWith`), and `resolve` is the only solution of its own equation
(`eq_resolve_of_resolveWith_eq`).
-/

set_option autoImplicit false

namespace SchemaGraft

/-- The state after an event was recorded. -/
def BuildState.withEvent (state : BuildState) (event : Event) : BuildState :=
  { state with events := event :: state.events }

theorem BuildState.slots_withSlot_congr {left right : BuildState} (same : left.slots = right.slots)
    (name : Name) (slot : BuildSlot) :
    (left.withSlot name slot).slots = (right.withSlot name slot).slots := by
  rw [withSlot, withSlot, same]

namespace Build

/-! ## What a request begins -/

/-- The event that tells that the type of a name was built, if the plan has a type for it. -/
def builtEvent? (context : BuildContext) (name : Name) : Option Event :=
  match context.plan.extended.get? name with
  | some extended => some (.builtExtendedType name extended.clauses.length)
  | none =>
    if context.base.types.contains name then none
    else (context.plan.newTypes.get? name).map fun definition =>
      .builtNewType name definition.kind

/-- The plan has a type for a name. -/
abbrev IsPlanned (context : BuildContext) (name : Name) : Prop :=
  (builtEvent? context name).isSome = true

theorem isPlanned_congr {context : BuildContext} {name other : Name}
    (same : (name == other) = true) : IsPlanned context name ↔ IsPlanned context other := by
  unfold IsPlanned builtEvent?
  rw [OrderedMap.get?_congr _ same, OrderedMap.get?_congr _ same, OrderedMap.contains_congr _ same]
  cases context.plan.extended.get? other with
  | some extended => rfl
  | none =>
      dsimp only
      split
      · rfl
      · rw [Option.isSome_map, Option.isSome_map]

section Tracking

variable {context : BuildContext} {before during after failed : BuildState → BuildState → Prop}
  {left right : Resolve} {name : Name}

theorem tracks_store (name : Name) (slot : BuildSlot) (here : ∀ left right, before left right →
      after (left.withSlot name slot) (right.withSlot name slot)) :
    Tracks before after failed (store name slot) (store name slot) :=
  fun left right related => .ok (here left right related)

theorem tracks_record (event : Event) (here : ∀ left right, before left right →
      after (left.withEvent event) (right.withEvent event)) :
    Tracks before after failed (record event) (record event) :=
  fun left right related => .ok (here left right related)

/-- Building a type of the plan: what is noted at its beginning, during the inquiry and at its end
keeps two states related. -/
theorem tracks_build {α : Type} (wrap : α → SchemaType) {kind : TypeKind} {event : Event}
    {action : Resolve → Build α} (inquires : IsInquiry action)
    (answers : ∀ other, Tracks during during failed (left other) (right other))
    (fails : ∀ leftState rightState, during leftState rightState → failed leftState rightState)
    (opens : ∀ leftState rightState, before leftState rightState →
      during (leftState.withSlot name (.inProgress kind))
        (rightState.withSlot name (.inProgress kind)))
    (closes : ∀ type leftState rightState, during leftState rightState →
      after ((leftState.withEvent event).withSlot name (.built type))
        ((rightState.withEvent event).withSlot name (.built type))) :
    Tracks before after failed
      (do
        store name (.inProgress kind)
        let value ← action left
        record event
        store name (.built (wrap value))
        return some kind : Build (Option TypeKind))
      (do
        store name (.inProgress kind)
        let value ← action right
        record event
        store name (.built (wrap value))
        return some kind) := by
  refine (tracks_store name _ opens).bind fun _ => ?_
  refine (inquires.tracks answers fails).bind fun value => ?_
  exact fun leftState rightState related => .ok (closes (wrap value) leftState rightState related)

/-- **Beginning a type keeps two states related** if its beginning, the answers to the questions
that arise and its end do. -/
theorem tracks_begin? (answers : ∀ other, Tracks during during failed (left other) (right other))
    (fails : ∀ leftState rightState, during leftState rightState → failed leftState rightState)
    (opens : ∀ kind leftState rightState, IsPlanned context name → before leftState rightState →
      during (leftState.withSlot name (.inProgress kind))
        (rightState.withSlot name (.inProgress kind)))
    (closes : ∀ event type leftState rightState, builtEvent? context name = some event →
      during leftState rightState →
      after ((leftState.withEvent event).withSlot name (.built type))
        ((rightState.withEvent event).withSlot name (.built type)))
    (keeps : ∀ type leftState rightState, builtEvent? context name = none →
      before leftState rightState →
      after (leftState.withSlot name (.built type)) (rightState.withSlot name (.built type)))
    (lacks : ∀ leftState rightState, builtEvent? context name = none → before leftState rightState →
      after leftState rightState) :
    Tracks before after failed (begin? context left name) (begin? context right name) := by
  unfold begin?
  unfold IsPlanned builtEvent? at opens
  unfold builtEvent? at closes keeps lacks
  cases planned : context.plan.extended.get? name with
  | some extended =>
      simp only [planned] at opens closes
      exact tracks_build _ (isInquiry_extendObject context name extended) answers fails
        (fun _ _ related => opens _ _ _ rfl related)
        fun type _ _ related => closes _ type _ _ rfl related
  | none =>
      simp only [planned, OrderedMap.contains_eq_isSome_get?] at opens closes keeps lacks
      cases found : context.base.types.get? name with
      | some type =>
          simp only [found, Option.isSome_some, if_true] at keeps
          exact fun _ _ related => .ok (keeps _ _ _ trivial related)
      | none =>
          simp only [found, Option.isSome_none, Bool.false_eq_true, if_false] at opens closes lacks
          cases added : context.plan.newTypes.get? name with
          | some definition =>
              simp only [added, Option.map_some] at opens closes
              exact tracks_build id (isInquiry_buildType context definition) answers fails
                (fun _ _ related => opens _ _ _ rfl related)
                fun type _ _ related => closes _ type _ _ rfl related
          | none =>
              simp only [added, Option.map_none] at lacks
              exact .pure none fun _ _ related => lacks _ _ trivial related

end Tracking

/-! ## The recursion ends -/

/-- How many names of the plan have not been begun. -/
def unbegun (context : BuildContext) (state : BuildState) : Nat :=
  (context.plan.extended.keys ++ context.plan.newTypes.keys).countP fun key =>
    !state.slots.contains key

variable {context : BuildContext}

theorem unbegun_lt_depthBound (state : BuildState) :
    unbegun context state < depthBound context.plan := by
  refine Nat.lt_of_le_of_lt List.countP_le_length ?_
  simp [depthBound, OrderedMap.keys, OrderedMap.size]

/-- What was begun stays begun. -/
theorem contains_withSlot_of_contains {state : BuildState} {key : Name}
    (present : state.slots.contains key = true) (name : Name) (slot : BuildSlot) :
    (state.withSlot name slot).slots.contains key = true := by
  rw [BuildState.withSlot, OrderedMap.contains_insert, present, Bool.or_true]

/-- The more is begun, the less is left. -/
theorem countP_absent_le {slots more : NameMap BuildSlot}
    (keeps : ∀ {key}, slots.contains key = true → more.contains key = true) (keys : List Name) :
    (keys.countP fun key => !more.contains key) ≤ keys.countP fun key => !slots.contains key := by
  refine List.countP_mono_left fun key _ absent => ?_
  rw [Bool.not_eq_true'] at absent ⊢
  by_contra present
  rw [keeps (by simpa using present)] at absent
  cases absent

theorem countP_withSlot_le (state : BuildState) (name : Name) (slot : BuildSlot)
    (keys : List Name) :
    (keys.countP fun key => !(state.withSlot name slot).slots.contains key) ≤
      keys.countP fun key => !state.slots.contains key :=
  countP_absent_le (contains_withSlot_of_contains · name slot) keys

theorem unbegun_withSlot_le (state : BuildState) (name : Name) (slot : BuildSlot) :
    unbegun context (state.withSlot name slot) ≤ unbegun context state :=
  countP_withSlot_le state name slot _

theorem exists_key_of_isPlanned {name : Name} (planned : IsPlanned context name) :
    ∃ key ∈ context.plan.extended.keys ++ context.plan.newTypes.keys, (key == name) = true := by
  unfold IsPlanned builtEvent? at planned
  split at planned
  · rename_i found
    obtain ⟨key, listed, same⟩ := OrderedMap.exists_key_of_get? found
    exact ⟨key, List.mem_append_left _ listed, same⟩
  · split at planned
    · cases planned
    · rw [Option.isSome_map] at planned
      obtain ⟨definition, found⟩ := Option.isSome_iff_exists.1 planned
      obtain ⟨key, listed, same⟩ := OrderedMap.exists_key_of_get? found
      exact ⟨key, List.mem_append_right _ listed, same⟩

/-- **A name of the plan that is begun is no longer left to be begun.** -/
theorem unbegun_withSlot_lt {state : BuildState} {name : Name} (planned : IsPlanned context name)
    (absent : state.slots.get? name = none) (slot : BuildSlot) :
    unbegun context (state.withSlot name slot) < unbegun context state := by
  obtain ⟨key, listed, same⟩ := exists_key_of_isPlanned planned
  obtain ⟨front, back, split⟩ := List.append_of_mem listed
  have before : state.slots.contains key = false := by
    rw [OrderedMap.contains_congr _ same, ← OrderedMap.get?_eq_none_iff]
    exact absent
  have after : (state.withSlot name slot).slots.contains key = true := by
    rw [OrderedMap.contains_congr _ same]
    exact state.contains_withSlot name slot
  unfold unbegun
  rw [split, List.countP_append, List.countP_append, List.countP_cons, List.countP_cons, before,
    after]
  have := countP_withSlot_le state name slot front
  have := countP_withSlot_le state name slot back
  simp only [Bool.not_true, Bool.not_false, Bool.false_eq_true, if_true, if_false]
  omega

/-- One state, in which fewer names than some number are left to be begun. -/
def Within (context : BuildContext) (depth : Nat) (left right : BuildState) : Prop :=
  left = right ∧ unbegun context left < depth

/-- Requests that may nest deep enough are answered alike, whatever is below. -/
theorem tracks_iterate (one other : Resolve) {depth : Nat} {first second : Nat}
    (enough : depth ≤ first) (enough' : depth ≤ second) (name : Name) :
    Tracks (Within context depth) (Within context depth) Eq
      ((resolveWith context)^[first] one name) ((resolveWith context)^[second] other name) := by
  -- Each level of nesting begins a name of the plan, so that fewer are left for the levels below.
  induction depth generalizing first second name with
  | zero => exact fun _ _ related => absurd related.2 (Nat.not_lt_zero _)
  | succ depth ih =>
      obtain ⟨first, rfl⟩ := Nat.exists_eq_add_of_le' enough
      obtain ⟨second, rfl⟩ := Nat.exists_eq_add_of_le' enough'
      rw [← Nat.add_assoc, ← Nat.add_assoc]
      rw [Function.iterate_succ_apply', Function.iterate_succ_apply']
      have inner := ih (Nat.le_add_left depth first) (Nat.le_add_left depth second)
      rintro state _ ⟨rfl, few⟩
      simp only [resolveWith, EStateM.run_bind, EStateM.run_get]
      cases found : state.slots.get? name with
      | some slot => exact .ok ⟨rfl, few⟩
      | none =>
          refine (tracks_begin? inner (fun _ _ related => related.1) ?opens ?closes ?keeps
            ?lacks).ends
          case opens =>
            rintro kind _ _ planned ⟨rfl, rfl⟩
            exact ⟨rfl, Nat.lt_of_lt_of_le (unbegun_withSlot_lt planned found _)
              (Nat.le_of_lt_succ few)⟩
          case closes =>
            rintro event type state _ _ ⟨rfl, fewer⟩
            exact ⟨rfl, Nat.lt_of_le_of_lt (unbegun_withSlot_le (state.withEvent event) name _)
              (Nat.lt_succ_of_lt fewer)⟩
          case keeps =>
            rintro type _ _ _ ⟨rfl, rfl⟩
            exact ⟨rfl, Nat.lt_of_le_of_lt (unbegun_withSlot_le _ name _) few⟩
          case lacks =>
            rintro _ _ _ ⟨rfl, rfl⟩
            exact ⟨rfl, few⟩

theorem EndTogether.eq {α : Type} {after : BuildState → BuildState → Prop}
    (same : ∀ left right, after left right → left = right)
    {left right : EStateM.Result Rejection BuildState α} (ends : EndTogether after Eq left right) :
    left = right := by
  cases ends with
  | ok here => rw [same _ _ here]
  | error here => rw [here]

theorem resolveWithin_eq_iterate (context : BuildContext) (depth : Nat) :
    resolveWithin context depth =
      (resolveWith context)^[depth] fun name => return declaredKind? context name := by
  induction depth with
  | zero => rfl
  | succ depth ih => rw [resolveWithin, ih, Function.iterate_succ_apply']

/-- **Requests nest no deeper than the plan is long.** What would be answered below does not matter,
for it is never asked. -/
theorem iterate_resolveWith (bottom : Resolve) {depth : Nat}
    (enough : depthBound context.plan ≤ depth) :
    (resolveWith context)^[depth] bottom = Build.resolve context := by
  funext name state
  rw [Build.resolve, resolveWithin_eq_iterate]
  exact (tracks_iterate bottom _ enough (Nat.le_refl _) name state state
    ⟨rfl, unbegun_lt_depthBound state⟩).eq fun _ _ related => related.1

/-- A request is answered by answering those that arise from it in the same way. -/
theorem resolveWith_resolve (context : BuildContext) :
    resolveWith context (Build.resolve context) = Build.resolve context := by
  have deeper := iterate_resolveWith (Build.resolve context)
    (Nat.le_succ (depthBound context.plan))
  rwa [Function.iterate_succ_apply', iterate_resolveWith _ (Nat.le_refl _)] at deeper

/-- There is only one way to answer requests by answering those that arise from them. -/
theorem eq_resolve_of_resolveWith_eq {other : Resolve}
    (solves : resolveWith context other = other) : other = Build.resolve context := by
  rw [← iterate_resolveWith other (Nat.le_refl _)]
  exact (Function.iterate_fixed solves _).symm

end Build

end SchemaGraft
