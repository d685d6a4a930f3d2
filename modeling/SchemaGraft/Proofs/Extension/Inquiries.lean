import Mathlib.Tactic.Choose
import SchemaGraft.Proofs.Extension.Members

/-!
# Building a type asks and nothing else

Whoever builds a type asks for other types, one after the other, and ends with the type or with a
rejection. It neither looks at the state nor changes it; only those who answer do. An `Inquiry` is
such a course of questions, and building a type is one, the same whoever answers
(`isInquiry_extendObject`, `isInquiry_buildType`).

So two builds can be followed side by side without going through the members of types again: if the
answers to single questions keep two states related, so do whole inquiries (`IsInquiry.tracks`).
-/

set_option autoImplicit false

namespace SchemaGraft

namespace Build

variable {α β : Type}

/-! ## Inquiries -/

/-- A course of questions for the kinds of types, which ends with a value or a rejection. -/
inductive Inquiry (α : Type) where
  | done (value : α)
  | reject (rejection : Rejection)
  | ask (name : Name) (next : Option TypeKind → Inquiry α)

namespace Inquiry

/-- The build that an inquiry is, given what answers its questions. -/
def run (resolve : Resolve) : Inquiry α → Build α
  | done value => pure value
  | reject rejection => throw rejection
  | ask name next => do
    let kind ← resolve name
    (next kind).run resolve

/-- One inquiry after the other. -/
def andThen : Inquiry α → (α → Inquiry β) → Inquiry β
  | done value, more => more value
  | reject rejection, _ => reject rejection
  | ask name next, more => ask name fun kind => (next kind).andThen more

theorem run_andThen (resolve : Resolve) (inquiry : Inquiry α) (more : α → Inquiry β) :
    (inquiry.andThen more).run resolve =
      inquiry.run resolve >>= fun value => (more value).run resolve := by
  induction inquiry with
  | done value => rfl
  | reject rejection => rfl
  | ask name next ih =>
      simp only [andThen, run, bind_assoc, ih]

end Inquiry

/-- An action is an inquiry, the same whoever answers its questions. -/
def IsInquiry (action : Resolve → Build α) : Prop :=
  ∃ inquiry : Inquiry α, ∀ resolve, action resolve = inquiry.run resolve

namespace IsInquiry

theorem pure (value : α) : IsInquiry fun _ => (Pure.pure value : Build α) :=
  ⟨.done value, fun _ => rfl⟩

theorem throw (rejection : Rejection) :
    IsInquiry fun _ => (MonadExcept.throw rejection : Build α) :=
  ⟨.reject rejection, fun _ => rfl⟩

theorem ask (name : Name) : IsInquiry fun resolve => resolve name :=
  ⟨.ask name .done, fun resolve => (bind_pure (resolve name)).symm⟩

theorem bind {action : Resolve → Build α} {next : Resolve → α → Build β}
    (first : IsInquiry action) (second : ∀ value, IsInquiry fun resolve => next resolve value) :
    IsInquiry fun resolve => action resolve >>= next resolve := by
  obtain ⟨inquiry, same⟩ := first
  choose more same' using second
  refine ⟨inquiry.andThen more, fun resolve => ?_⟩
  have asked : next resolve = fun value => (more value).run resolve :=
    funext fun value => same' value resolve
  rw [Inquiry.run_andThen, ← same, ← asked]

theorem foldlM {step : Resolve → α → β → Build α} {items : List β}
    (each : ∀ value item, IsInquiry fun resolve => step resolve value item) (start : α) :
    IsInquiry fun resolve => items.foldlM (step resolve) start := by
  induction items generalizing start with
  | nil => exact .pure start
  | cons item rest ih =>
      simp only [List.foldlM_cons]
      exact (each start item).bind ih

end IsInquiry

/-! ## Members and types -/

theorem isInquiry_reference (name : Name) (location : Option Location) (expected : ExpectedKind)
    (site : ReferenceSite) :
    IsInquiry fun resolve => Build.reference resolve name location expected site := by
  refine (IsInquiry.ask name).bind fun kind => ?_
  cases kind with
  | none => exact .throw _
  | some found =>
      dsimp only
      cases expected.accepts found with
      | true => exact .pure ()
      | false => exact .throw _

theorem isInquiry_referenceAll (references : List Reference) :
    IsInquiry fun resolve => referenceAll resolve references := by
  induction references with
  | nil => exact .pure ()
  | cons reference rest ih => exact (isInquiry_reference _ _ _ _).bind fun _ => ih

theorem isInquiry_rejectDuplicate {μ : Type} (type : Name) (members : NameMap (Node μ))
    (name : Name) (location : Option Location) :
    IsInquiry fun _ => rejectDuplicate type members name location := by
  unfold rejectDuplicate
  cases members.get? name with
  | none => exact .pure ()
  | some previous => exact .throw _

theorem isInquiry_addInterface (type : Name) (clause : Option Location) (interfaces : NameSet)
    (interface : Name) :
    IsInquiry fun resolve => addInterface resolve type clause interfaces interface := by
  unfold addInterface
  cases interfaces.contains interface with
  | true => exact (IsInquiry.throw _).bind fun _ =>
      (isInquiry_reference _ _ _ _).bind fun _ => .pure _
  | false => exact (isInquiry_reference _ _ _ _).bind fun _ => .pure _

theorem isInquiry_addField (context : BuildContext) (key type : Name)
    (fields : NameMap (Node Field)) (definition : Node FieldDefinition) :
    IsInquiry fun resolve => addField context resolve key type fields definition := by
  unfold addField
  refine (isInquiry_rejectDuplicate _ _ _ _).bind fun _ =>
    (isInquiry_reference _ _ _ _).bind fun _ => IsInquiry.bind ?_ fun _ => .pure _
  simp only [referenceArguments_eq]
  exact isInquiry_referenceAll _

theorem isInquiry_addMember (type : Name) (location : Option Location) (members : NameSet)
    (member : Name) : IsInquiry fun resolve => addMember resolve type location members member :=
  (isInquiry_reference _ _ _ _).bind fun _ => .pure _

theorem isInquiry_addEnumValue (context : BuildContext) (type : Name)
    (values : NameMap (Node EnumValue)) (definition : Node EnumValueDefinition) :
    IsInquiry fun _ => addEnumValue context type values definition :=
  (isInquiry_rejectDuplicate _ _ _ _).bind fun _ => .pure _

theorem isInquiry_addInputField (type : Name) (fields : NameMap (Node InputValueDefinition))
    (definition : Node InputValueDefinition) :
    IsInquiry fun resolve => addInputField resolve type fields definition :=
  (isInquiry_rejectDuplicate _ _ _ _).bind fun _ =>
    (isInquiry_reference _ _ _ _).bind fun _ => .pure _

theorem isInquiry_applyClause (context : BuildContext) (key : Name) (type : ObjectLikeType)
    (clause : Node ObjectExtension) :
    IsInquiry fun resolve => applyClause context resolve key type clause :=
  (IsInquiry.foldlM (fun _ _ => isInquiry_addInterface _ _ _ _) _).bind fun _ =>
    (IsInquiry.foldlM (fun _ _ => isInquiry_addField _ _ _ _ _) _).bind fun _ => .pure _

theorem isInquiry_extendObject (context : BuildContext) (key : Name) (extended : ExtendedObject) :
    IsInquiry fun resolve => extendObject context resolve key extended :=
  (IsInquiry.foldlM (fun _ _ => isInquiry_applyClause _ _ _ _) _).bind fun _ => .pure _

theorem isInquiry_buildObjectLike (context : BuildContext)
    (definition : Node ObjectLikeDefinition) :
    IsInquiry fun resolve => buildObjectLike context resolve definition :=
  (IsInquiry.foldlM (fun _ _ => isInquiry_addInterface _ _ _ _) _).bind fun _ =>
    (IsInquiry.foldlM (fun _ _ => isInquiry_addField _ _ _ _ _) _).bind fun _ => .pure _

theorem isInquiry_buildUnion (context : BuildContext) (definition : Node UnionDefinition) :
    IsInquiry fun resolve => buildUnion context resolve definition :=
  (IsInquiry.foldlM (fun _ _ => isInquiry_addMember _ _ _ _) _).bind fun _ => .pure _

theorem isInquiry_buildEnum (context : BuildContext) (definition : Node EnumDefinition) :
    IsInquiry fun _ => buildEnum context definition :=
  (IsInquiry.foldlM (fun _ _ => isInquiry_addEnumValue _ _ _ _) _).bind fun _ => .pure _

theorem isInquiry_buildInputObject (context : BuildContext)
    (definition : Node InputObjectDefinition) :
    IsInquiry fun resolve => buildInputObject context resolve definition :=
  (IsInquiry.foldlM (fun _ _ => isInquiry_addInputField _ _ _) _).bind fun _ => .pure _

/-- **Building a new type asks for other types and does nothing else.** -/
theorem isInquiry_buildType (context : BuildContext) (definition : TypeDefinition) :
    IsInquiry fun resolve => buildType context resolve definition := by
  cases definition with
  | scalar definition => exact .pure _
  | object definition => exact (isInquiry_buildObjectLike _ _).bind fun _ => .pure _
  | interface definition => exact (isInquiry_buildObjectLike _ _).bind fun _ => .pure _
  | union definition => exact (isInquiry_buildUnion _ _).bind fun _ => .pure _
  | enum definition => exact (isInquiry_buildEnum _ _).bind fun _ => .pure _
  | inputObject definition => exact (isInquiry_buildInputObject _ _).bind fun _ => .pure _

/-! ## Directives and requests -/

theorem isInquiry_referenceDirectiveArguments (directive : Name)
    (arguments : List (Node InputValueDefinition)) :
    IsInquiry fun resolve => referenceDirectiveArguments resolve directive arguments := by
  simp only [referenceDirectiveArguments_eq]
  exact isInquiry_referenceAll _

theorem isInquiry_resolveAll (names : List Name) :
    IsInquiry fun resolve => resolveAll resolve names := by
  induction names with
  | nil => exact .pure ()
  | cons name rest ih => exact (IsInquiry.ask name).bind fun _ => ih

/-! ## Two builds side by side -/

/-- Two builds end alike, with one value or one rejection, in states that are related. -/
inductive EndTogether (after failed : BuildState → BuildState → Prop) :
    EStateM.Result Rejection BuildState α → EStateM.Result Rejection BuildState α → Prop where
  | ok {value : α} {left right : BuildState} (here : after left right) :
      EndTogether after failed (.ok value left) (.ok value right)
  | error {rejection : Rejection} {left right : BuildState} (here : failed left right) :
      EndTogether after failed (.error rejection left) (.error rejection right)

/-- From related states, two builds end alike in states that are related again. -/
def Tracks (before after failed : BuildState → BuildState → Prop) (left right : Build α) : Prop :=
  ∀ leftState rightState, before leftState rightState →
    EndTogether after failed (left.run leftState) (right.run rightState)

/-- Two states are two given ones. -/
def Exactly (one other left right : BuildState) : Prop := left = one ∧ right = other

section Tracking

variable {before during after failed : BuildState → BuildState → Prop}

theorem Tracks.ends {left right : Build α} {leftState rightState : BuildState}
    (tracks : Tracks (Exactly leftState rightState) after failed left right) :
    EndTogether after failed (left.run leftState) (right.run rightState) :=
  tracks leftState rightState ⟨rfl, rfl⟩

theorem Tracks.pure (value : α) (here : ∀ left right, before left right → after left right) :
    Tracks before after failed (Pure.pure value : Build α) (Pure.pure value) :=
  fun left right related => .ok (here left right related)

theorem Tracks.throw (rejection : Rejection)
    (here : ∀ left right, before left right → failed left right) :
    Tracks before after failed (MonadExcept.throw rejection : Build α)
      (MonadExcept.throw rejection) :=
  fun left right related => .error (here left right related)

theorem Tracks.bind {left right : Build α} {leftNext rightNext : α → Build β}
    (first : Tracks before during failed left right)
    (second : ∀ value, Tracks during after failed (leftNext value) (rightNext value)) :
    Tracks before after failed (left >>= leftNext) (right >>= rightNext) := by
  intro leftState rightState related
  have early := first leftState rightState related
  rw [EStateM.run_bind, EStateM.run_bind]
  revert early
  generalize left.run leftState = leftEnd
  generalize right.run rightState = rightEnd
  rintro (here | here)
  · exact second _ _ _ here
  · exact .error here

variable {left right : Resolve}

/-- **If single answers keep two states related, so do whole inquiries.** -/
theorem Inquiry.tracks (answers : ∀ name, Tracks during during failed (left name) (right name))
    (fails : ∀ leftState rightState, during leftState rightState → failed leftState rightState)
    (inquiry : Inquiry α) :
    Tracks during during failed (inquiry.run left) (inquiry.run right) := by
  induction inquiry with
  | done value => exact .pure value fun _ _ related => related
  | reject rejection => exact .throw rejection fails
  | ask name next ih => exact (answers name).bind ih

theorem IsInquiry.tracks {action : Resolve → Build α} (inquires : IsInquiry action)
    (answers : ∀ name, Tracks during during failed (left name) (right name))
    (fails : ∀ leftState rightState, during leftState rightState → failed leftState rightState) :
    Tracks during during failed (action left) (action right) := by
  obtain ⟨inquiry, same⟩ := inquires
  rw [same, same]
  exact inquiry.tracks answers fails

end Tracking

end Build

end SchemaGraft
