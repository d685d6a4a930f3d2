import SchemaGraft.Proofs.Extension.Members
import SchemaGraft.Proofs.Extension.Shapes

/-!
# Two runs side by side

What users assign resolvers to has no effect on how a build goes. To see this, two builds are
followed step by step. They start in states of one shape, and each step leads to states of one shape
again, or both builds are rejected for one reason (`Build.Agree`). So whatever is asked for is asked
for by both in the same order, and they end in schemas of one shape (`Build.agree_schema`).

The statements also keep track of the names that are asked for: if all that the plan mentions have
some property, so do the keys under which types are stored. Nothing else becomes a key.
-/

set_option autoImplicit false

namespace SchemaGraft

namespace Build

/-! ## Actions that agree -/

/-- How two actions can end alike: with results that are related, or for one reason. -/
inductive EndsAlike {α : Type} (asked : Name → Prop) (related : α → α → Prop) :
    EStateM.Result Rejection BuildState α → EStateM.Result Rejection BuildState α → Prop where
  | ok {left right : α} {leftState rightState : BuildState} (results : related left right)
      (shapes : leftState.shape = rightState.shape)
      (keys : ∀ key ∈ leftState.slots.keys, asked key) :
      EndsAlike asked related (.ok left leftState) (.ok right rightState)
  | error {rejection : Rejection} {leftState rightState : BuildState}
      (shapes : leftState.shape = rightState.shape) :
      EndsAlike asked related (.error rejection leftState) (.error rejection rightState)

/-- From states of one shape, two actions end alike. -/
def Agree {α : Type} (asked : Name → Prop) (related : α → α → Prop) (left right : Build α) : Prop :=
  ∀ leftState rightState : BuildState, leftState.shape = rightState.shape →
    (∀ key ∈ leftState.slots.keys, asked key) →
    EndsAlike asked related (left.run leftState) (right.run rightState)

section Actions

variable {α β : Type} {asked : Name → Prop}

theorem Agree.pure {related : α → α → Prop} {left right : α} (here : related left right) :
    Agree asked related (Pure.pure left) (Pure.pure right) :=
  fun _ _ shapes keys => .ok here shapes keys

theorem Agree.throw {related : α → α → Prop} (rejection : Rejection) :
    Agree asked related (MonadExcept.throw rejection : Build α) (MonadExcept.throw rejection) :=
  fun _ _ shapes _ => .error shapes

theorem Agree.bind {related : α → α → Prop} {related' : β → β → Prop} {left right : Build α}
    {leftNext rightNext : α → Build β} (first : Agree asked related left right)
    (second : ∀ one other, related one other →
      Agree asked related' (leftNext one) (rightNext other)) :
    Agree asked related' (left >>= leftNext) (right >>= rightNext) := by
  intro leftState rightState shapes keys
  have early := first leftState rightState shapes keys
  rw [EStateM.run_bind, EStateM.run_bind]
  revert early
  generalize left.run leftState = leftEnd
  generalize right.run rightState = rightEnd
  intro early
  cases early with
  | ok results shapes keys => exact second _ _ results _ _ shapes keys
  | error shapes => exact .error shapes

/-- Loops agree if their steps do. -/
theorem Agree.foldlM {related : α → α → Prop} {leftStep rightStep : α → β → Build α}
    {items : List β} (each : ∀ item ∈ items, ∀ one other, related one other →
      Agree asked related (leftStep one item) (rightStep other item))
    {left right : α} (start : related left right) :
    Agree asked related (items.foldlM leftStep left) (items.foldlM rightStep right) := by
  induction items generalizing left right with
  | nil => exact .pure start
  | cons item rest ih =>
      rw [List.forall_mem_cons] at each
      rw [List.foldlM_cons, List.foldlM_cons]
      exact (each.1 left right start).bind fun _ _ here => ih each.2 here

theorem agree_get : Agree asked
    (fun left right => left.shape = right.shape ∧ ∀ key ∈ left.slots.keys, asked key) get get :=
  fun _ _ shapes keys => .ok ⟨shapes, keys⟩ shapes keys

theorem agree_record (event : Event) : Agree asked Eq (record event) (record event) := by
  intro leftState rightState shapes keys
  refine .ok rfl ?_ keys
  simp only [BuildState.shape, BuildState.mk.injEq] at shapes ⊢
  exact ⟨shapes.1, by rw [shapes.2]⟩

theorem agree_store {name : Name} (named : asked name) {left right : BuildSlot}
    (same : left.shape = right.shape) : Agree asked Eq (store name left) (store name right) := by
  intro leftState rightState shapes keys
  refine .ok rfl ?_ fun key member => ?_
  · simp only [BuildState.shape, BuildState.mk.injEq, OrderedMap.mapValues_insert] at shapes ⊢
    exact ⟨by rw [shapes.1, same], shapes.2⟩
  · rcases OrderedMap.mem_keys_insert member with rfl | member
    · exact named
    · exact keys key member

end Actions

/-! ## Members -/

/-- Requests for names that may be asked for are answered alike. -/
def AnswerAlike (asked : Name → Prop) (left right : Resolve) : Prop :=
  ∀ name, asked name → Agree asked Eq (left name) (right name)

section Members

variable {asked : Name → Prop} {left right : Resolve} (alike : AnswerAlike asked left right)

theorem agree_rejectDuplicate {α β : Type} {change : α → β} {one other : NameMap (Node α)}
    (same : NameMap.shape change one = NameMap.shape change other)
    (type name : Name) (location : Option Location) :
    Agree asked Eq (rejectDuplicate type one name location)
      (rejectDuplicate type other name location) := by
  have found := congrArg (fun map => OrderedMap.get? map name) same
  simp only [NameMap.shape, OrderedMap.get?_mapValues] at found
  unfold rejectDuplicate
  cases left : one.get? name <;> cases right : other.get? name <;> rw [left, right] at found
  case none.none => exact .pure rfl
  case none.some => cases found
  case some.none => cases found
  case some.some previous previous' =>
      have location := congrArg Node.location (Option.some.inj found)
      simp only [Node.shape] at location
      simp only [location]
      exact .throw _

include alike

theorem agree_reference {name : Name} (named : asked name) (location : Option Location)
    (expected : ExpectedKind) (site : ReferenceSite) :
    Agree asked Eq (Build.reference left name location expected site)
      (Build.reference right name location expected site) := by
  refine (alike name named).bind ?_
  rintro kind _ rfl
  cases kind with
  | none => exact .throw _
  | some found =>
      dsimp only
      cases expected.accepts found with
      | true => exact .pure rfl
      | false => exact .throw _

theorem agree_referenceAll {references : List Reference}
    (named : ∀ reference ∈ references, asked reference.name) :
    Agree asked Eq (referenceAll left references) (referenceAll right references) := by
  induction references with
  | nil => exact .pure rfl
  | cons reference rest ih =>
      rw [List.forall_mem_cons] at named
      exact (agree_reference alike named.1 _ _ _).bind fun _ _ _ => ih named.2

theorem agree_addInterface (type : Name) (clause : Option Location) (interfaces : NameSet)
    {interface : Name} (named : asked interface) :
    Agree asked Eq (addInterface left type clause interfaces interface)
      (addInterface right type clause interfaces interface) := by
  unfold addInterface
  cases interfaces.contains interface with
  | true =>
      have thrown : Agree asked (fun _ _ => False) (throw _ : Build PUnit) (throw _) :=
        .throw (.duplicateInterface type interface (interface.location.or clause))
      exact thrown.bind fun _ _ never => never.elim
  | false => exact (agree_reference alike named _ _ _).bind fun _ _ _ => .pure rfl

theorem agree_addInterfaces (type : Name) (clause : Option Location) (interfaces : NameSet)
    {added : List Name} (named : ∀ interface ∈ added, asked interface) :
    Agree asked Eq (addInterfaces left type clause interfaces added)
      (addInterfaces right type clause interfaces added) := by
  refine Agree.foldlM (fun interface member one other same => ?_) rfl
  rw [← same]
  exact agree_addInterface alike type clause one (named interface member)

theorem agree_addField {leftContext rightContext : BuildContext} (key type : Name)
    {one other : NameMap (Node Field)}
    (same : NameMap.shape Field.shape one = NameMap.shape Field.shape other)
    {definition : Node FieldDefinition}
    (named : ∀ reference ∈ definition.fieldReferences type, asked reference.name) :
    Agree asked (fun one other =>
        NameMap.shape Field.shape one = NameMap.shape Field.shape other)
      (addField leftContext left key type one definition)
      (addField rightContext right key type other definition) := by
  rw [Node.fieldReferences, List.forall_mem_cons] at named
  have arguments := agree_referenceAll alike named.2
  rw [← referenceArguments_eq, ← referenceArguments_eq] at arguments
  refine (agree_rejectDuplicate same type _ _).bind fun _ _ _ =>
    (agree_reference alike named.1 _ _ _).bind fun _ _ _ =>
    arguments.bind fun _ _ _ => .pure ?_
  unfold NameMap.shape at same ⊢
  rw [OrderedMap.mapValues_insert, OrderedMap.mapValues_insert, same]
  rfl

theorem agree_addFields {leftContext rightContext : BuildContext} (key type : Name)
    {one other : NameMap (Node Field)}
    (same : NameMap.shape Field.shape one = NameMap.shape Field.shape other)
    {added : List (Node FieldDefinition)}
    (named : ∀ reference ∈ added.flatMap (Node.fieldReferences type), asked reference.name) :
    Agree asked (fun one other =>
        NameMap.shape Field.shape one = NameMap.shape Field.shape other)
      (addFields leftContext left key type one added)
      (addFields rightContext right key type other added) := by
  refine Agree.foldlM (fun definition member one other same => ?_) same
  refine agree_addField alike key type same fun reference here => ?_
  exact named reference (List.mem_flatMap.2 ⟨definition, member, here⟩)

theorem agree_addMember (type : Name) (location : Option Location) (members : NameSet)
    {member : Name} (named : asked member) :
    Agree asked Eq (addMember left type location members member)
      (addMember right type location members member) :=
  (agree_reference alike named _ _ _).bind fun _ _ _ => .pure rfl

theorem agree_addInputField (type : Name) (fields : NameMap (Node InputValueDefinition))
    {definition : Node InputValueDefinition}
    (named : asked definition.value.type.value.innerName) :
    Agree asked Eq (addInputField left type fields definition)
      (addInputField right type fields definition) := by
  have unchanged : NameMap.shape id fields = NameMap.shape id fields := rfl
  exact (agree_rejectDuplicate unchanged type _ _).bind fun _ _ _ =>
    (agree_reference alike named _ _ _).bind fun _ _ _ => .pure rfl

end Members

theorem agree_addEnumValue {asked : Name → Prop} {leftContext rightContext : BuildContext}
    (type : Name) {one other : NameMap (Node EnumValue)}
    (same : NameMap.shape id one = NameMap.shape id other) (definition : Node EnumValueDefinition) :
    Agree asked (fun one other => NameMap.shape id one = NameMap.shape id other)
      (addEnumValue leftContext type one definition)
      (addEnumValue rightContext type other definition) := by
  refine (agree_rejectDuplicate same type _ _).bind fun _ _ _ => .pure ?_
  unfold NameMap.shape at same ⊢
  rw [OrderedMap.mapValues_insert, OrderedMap.mapValues_insert, same]
  rfl

/-! ## Types -/

theorem ObjectLikeType.shape_eq_iff {one other : ObjectLikeType} :
    one.shape = other.shape ↔ one.description = other.description ∧ one.name = other.name ∧
      one.interfaces = other.interfaces ∧ one.directives = other.directives ∧
      NameMap.shape Field.shape one.fields = NameMap.shape Field.shape other.fields := by
  simp only [ObjectLikeType.shape, ObjectLikeType.mk.injEq]

/-- Whatever type a clause is taken to extend, it refers to the same names. -/
theorem map_name_clauseReferences (clause : Node ObjectExtension) (type other : Name) :
    (clause.clauseReferences type).map (·.name) = (clause.clauseReferences other).map (·.name) := by
  simp [Node.clauseReferences, interfaceReferences, Node.fieldReferences, Node.inputReference,
    List.map_flatMap, Function.comp_def]

section Types

variable {asked : Name → Prop} {left right : Resolve} (alike : AnswerAlike asked left right)
  {leftContext rightContext : BuildContext}
include alike

theorem agree_applyClause (key : Name) {one other : ObjectLikeType} (same : one.shape = other.shape)
    {clause : Node ObjectExtension}
    (named : ∀ reference ∈ clause.clauseReferences clause.value.name, asked reference.name) :
    Agree asked (fun one other => one.shape = other.shape)
      (applyClause leftContext left key one clause)
      (applyClause rightContext right key other clause) := by
  obtain ⟨description, name, interfaces, directives, fields⟩ := ObjectLikeType.shape_eq_iff.1 same
  have mentioned : ∀ reference ∈ clause.clauseReferences other.name, asked reference.name := by
    rw [← List.forall_mem_map (P := asked)] at named ⊢
    rwa [map_name_clauseReferences clause other.name clause.value.name]
  rw [Node.clauseReferences, List.forall_mem_append, interfaceReferences,
    List.forall_mem_map] at mentioned
  obtain ⟨implemented, referred⟩ := mentioned
  unfold applyClause
  rw [name, interfaces]
  refine (agree_addInterfaces alike _ _ _ implemented).bind fun added _ same => ?_
  refine (agree_addFields alike key _ fields referred).bind fun _ _ fields => .pure ?_
  exact ObjectLikeType.shape_eq_iff.2 ⟨description, rfl, same, by rw [directives], fields⟩

theorem agree_extendObject (key : Name) {extended : ExtendedObject}
    (named : ∀ clause ∈ extended.clauses,
      ∀ reference ∈ clause.clauseReferences clause.value.name, asked reference.name) :
    Agree asked (fun one other => one.shape ObjectLikeType.shape = other.shape ObjectLikeType.shape)
      (extendObject leftContext left key extended)
      (extendObject rightContext right key extended) := by
  have folded : Agree asked (fun one other => one.shape = other.shape)
      (extended.clauses.foldlM (applyClause leftContext left key) extended.base.value)
      (extended.clauses.foldlM (applyClause rightContext right key) extended.base.value) := by
    refine Agree.foldlM (fun clause member one other same => ?_) rfl
    exact agree_applyClause alike key same (named clause member)
  refine folded.bind fun one other same => .pure ?_
  rw [Node.shape, Node.shape, Node.rebuild, Node.rebuild, same]
  rfl

theorem agree_buildObjectLike {definition : Node ObjectLikeDefinition}
    (named : ∀ reference ∈ definition.objectLikeReferences, asked reference.name) :
    Agree asked (fun one other => one.shape ObjectLikeType.shape = other.shape ObjectLikeType.shape)
      (buildObjectLike leftContext left definition)
      (buildObjectLike rightContext right definition) := by
  rw [Node.objectLikeReferences, List.forall_mem_append, interfaceReferences,
    List.forall_mem_map] at named
  obtain ⟨implemented, referred⟩ := named
  refine (agree_addInterfaces alike _ _ _ implemented).bind fun interfaces _ same => ?_
  refine (agree_addFields alike _ _ rfl referred).bind fun one other fields => .pure ?_
  simp only [Node.shape, Node.rebuild, ObjectLikeType.shape, same, fields]
  rfl

theorem agree_buildUnion {definition : Node UnionDefinition}
    (named : ∀ reference ∈ definition.unionReferences, asked reference.name) :
    Agree asked (fun one other => one.shape id = other.shape id)
      (buildUnion leftContext left definition) (buildUnion rightContext right definition) := by
  rw [Node.unionReferences, List.forall_mem_map] at named
  refine (Agree.foldlM ?_ rfl).bind fun members _ same => .pure ?_
  · rintro member listed members _ rfl
    exact agree_addMember alike _ _ members (named member listed)
  · subst same
    rfl

theorem agree_buildInputObject {definition : Node InputObjectDefinition}
    (named : ∀ reference ∈ definition.value.fields.map
      (Node.inputReference (.inputField definition.value.name)), asked reference.name) :
    Agree asked (fun one other => one.shape id = other.shape id)
      (buildInputObject leftContext left definition)
      (buildInputObject rightContext right definition) := by
  rw [List.forall_mem_map] at named
  refine (Agree.foldlM ?_ rfl).bind fun fields _ same => .pure ?_
  · rintro field listed fields _ rfl
    exact agree_addInputField alike _ fields (named field listed)
  · subst same
    rfl

omit alike in
theorem agree_buildEnum (definition : Node EnumDefinition) :
    Agree asked (fun one other => one.shape EnumType.shape = other.shape EnumType.shape)
      (buildEnum leftContext definition) (buildEnum rightContext definition) := by
  have folded : Agree asked (fun one other => NameMap.shape id one = NameMap.shape id other)
      (definition.value.values.foldlM (addEnumValue leftContext definition.value.name)
        OrderedMap.empty)
      (definition.value.values.foldlM (addEnumValue rightContext definition.value.name)
        OrderedMap.empty) :=
    .foldlM (fun value _ _ _ same => agree_addEnumValue _ same value) rfl
  refine folded.bind fun one other same => .pure ?_
  simp only [Node.shape, Node.rebuild, EnumType.shape, same]
  rfl

theorem agree_buildType {definition : TypeDefinition}
    (named : ∀ reference ∈ definition.references, asked reference.name) :
    Agree asked (fun one other => one.shape = other.shape)
      (buildType leftContext left definition) (buildType rightContext right definition) := by
  cases definition with
  | scalar definition => exact .pure rfl
  | object definition =>
      exact (agree_buildObjectLike alike named).bind fun _ _ same =>
        .pure (congrArg SchemaType.object same)
  | interface definition =>
      exact (agree_buildObjectLike alike named).bind fun _ _ same =>
        .pure (congrArg SchemaType.interface same)
  | union definition =>
      exact (agree_buildUnion alike named).bind fun _ _ same =>
        .pure (congrArg SchemaType.union same)
  | enum definition =>
      exact (agree_buildEnum definition).bind fun _ _ same => .pure (congrArg SchemaType.enum same)
  | inputObject definition =>
      exact (agree_buildInputObject alike named).bind fun _ _ same =>
        .pure (congrArg SchemaType.inputObject same)

end Types

/-! ## Requests -/

/-- All names that a plan mentions may be asked for. -/
structure AsksOnly (asked : Name → Prop) (plan : ExtensionPlan) : Prop where
  extended : ∀ {name extended}, plan.extended.get? name = some extended →
    ∀ clause ∈ extended.clauses,
      ∀ reference ∈ clause.clauseReferences clause.value.name, asked reference.name
  types : ∀ {name definition}, plan.newTypes.get? name = some definition →
    ∀ reference ∈ definition.references, asked reference.name
  directives : ∀ definition ∈ plan.newDirectives,
    ∀ reference ∈ definition.directiveReferences, asked reference.name
  keys : ∀ name ∈ plan.extended.keys ++ plan.newTypes.keys, asked name

section Requests

variable {asked : Name → Prop} {leftContext rightContext : BuildContext}
  (base : leftContext.base = rightContext.base) (plan : leftContext.plan = rightContext.plan)
  (asks : AsksOnly asked rightContext.plan)

section OneRequest

variable {left right : Resolve} (alike : AnswerAlike asked left right)
include base plan asks alike

/-- A type that has not been begun is begun, built and stored alike. -/
theorem agree_begin? {name : Name} (named : asked name) :
    Agree asked Eq (begin? leftContext left name) (begin? rightContext right name) := by
  unfold begin?
  rw [base, plan]
  cases planned : rightContext.plan.extended.get? name with
  | some extended =>
      have built : Agree asked _ (extendObject leftContext left name extended)
          (extendObject rightContext right name extended) :=
        agree_extendObject alike name (asks.extended planned)
      refine (agree_store named rfl).bind fun _ _ _ => built.bind fun one other same =>
        (agree_record _).bind fun _ _ _ => ?_
      have stored :
          (BuildSlot.built (.object one)).shape = (BuildSlot.built (.object other)).shape :=
        congrArg (fun type => BuildSlot.built (.object type)) same
      exact (agree_store named stored).bind fun _ _ _ => .pure rfl
  | none =>
      cases rightContext.base.types.get? name with
      | some type => exact (agree_store named rfl).bind fun _ _ _ => .pure rfl
      | none =>
          cases planned : rightContext.plan.newTypes.get? name with
          | none => exact .pure rfl
          | some definition =>
              have built : Agree asked _ (buildType leftContext left definition)
                  (buildType rightContext right definition) :=
                agree_buildType alike (asks.types planned)
              refine (agree_store named rfl).bind fun _ _ _ => built.bind fun one other same =>
                (agree_record _).bind fun _ _ _ => ?_
              have stored : (BuildSlot.built one).shape = (BuildSlot.built other).shape :=
                congrArg BuildSlot.built same
              exact (agree_store named stored).bind fun _ _ _ => .pure rfl

/-- A request is answered alike if those that arise from it are. -/
theorem answerAlike_resolveWith :
    AnswerAlike asked (resolveWith leftContext left) (resolveWith rightContext right) := by
  intro name named
  refine agree_get.bind ?_
  rintro one other ⟨shapes, _⟩
  have slots := congrArg (fun state => OrderedMap.get? state.slots name) shapes
  simp only [BuildState.shape, OrderedMap.get?_mapValues] at slots
  cases before : one.slots.get? name <;> cases after : other.slots.get? name <;>
    rw [before, after] at slots
  case none.none => exact agree_begin? base plan asks alike named
  case none.some => cases slots
  case some.none => cases slots
  case some.some slot slot' =>
      have kinds := congrArg BuildSlot.kind (Option.some.inj slots)
      rw [BuildSlot.kind_shape, BuildSlot.kind_shape] at kinds
      exact .pure (congrArg some kinds)

end OneRequest

include base plan asks

/-- **Requests are answered alike**, however deep they may nest. -/
theorem answerAlike_resolveWithin (depth : Nat) :
    AnswerAlike asked (resolveWithin leftContext depth) (resolveWithin rightContext depth) := by
  induction depth with
  | zero =>
      intro name _
      refine .pure ?_
      rw [declaredKind?, declaredKind?, base, plan]
  | succ depth ih => exact answerAlike_resolveWith base plan asks ih

theorem answerAlike_resolve :
    AnswerAlike asked (resolve leftContext) (resolve rightContext) := by
  unfold resolve
  rw [plan]
  exact answerAlike_resolveWithin base plan asks _

end Requests

/-! ## Whole schemas -/

section Schemas

variable {asked : Name → Prop} {left right : Resolve} (alike : AnswerAlike asked left right)
include alike

theorem agree_addDirective (directives : NameMap (Node DirectiveDefinition))
    {definition : Node DirectiveDefinition}
    (named : ∀ reference ∈ definition.directiveReferences, asked reference.name) :
    Agree asked Eq (addDirective left directives definition)
      (addDirective right directives definition) := by
  unfold addDirective
  dsimp only
  cases directives.get? definition.value.name with
  | some previous => exact .throw _
  | none =>
      have arguments := agree_referenceAll alike named
      rw [Node.directiveReferences, ← referenceDirectiveArguments_eq,
        ← referenceDirectiveArguments_eq] at arguments
      exact arguments.bind fun _ _ _ => (agree_record _).bind fun _ _ _ => .pure rfl

theorem agree_resolveAll {names : List Name} (named : ∀ name ∈ names, asked name) :
    Agree asked Eq (resolveAll left names) (resolveAll right names) := by
  induction names with
  | nil => exact .pure rfl
  | cons name rest ih =>
      rw [List.forall_mem_cons] at named
      exact (alike name named.1).bind fun _ _ _ => ih named.2

end Schemas

theorem builtType?_shape (slots : NameMap BuildSlot) (name : Name) :
    builtType? (slots.mapValues BuildSlot.shape) name =
      (builtType? slots name).map fun entry => (entry.1, entry.2.shape) := by
  rw [builtType?, builtType?, OrderedMap.find?_mapValues]
  cases slots.find? name with
  | none => rfl
  | some entry =>
      obtain ⟨key, slot⟩ := entry
      cases slot <;> rfl

/-- What is collected from states of one shape has one shape. -/
theorem shape_collect (context : BuildContext) (slots : NameMap BuildSlot) :
    (collect context slots).mapValues SchemaType.shape =
      OrderedMap.ofList
        ((context.base.types.entries.map fun entry =>
          (entry.1, ((builtType? (slots.mapValues BuildSlot.shape) entry.1).map (·.2)).getD
            entry.2.shape)) ++
        context.plan.newTypes.keys.filterMap (builtType? (slots.mapValues BuildSlot.shape))) := by
  rw [collect, OrderedMap.mapValues_ofList, List.map_append, List.map_map, List.map_filterMap]
  congr 2
  · refine List.map_congr_left fun ⟨name, type⟩ _ => ?_
    dsimp only [Function.comp_apply]
    rw [builtType?_shape]
    cases builtType? slots name <;> rfl
  · exact congrArg (List.filterMap · _) (funext fun name => (builtType?_shape slots name).symm)

/-- The keys of what is collected were there before or have been asked for. -/
theorem mem_keys_collect {context : BuildContext} {slots : NameMap BuildSlot} {key : Name}
    (member : key ∈ (collect context slots).keys) :
    key ∈ context.base.types.keys ∨ key ∈ slots.keys := by
  have listed := OrderedMap.mem_keys_ofList member
  rw [List.map_append, List.mem_append] at listed
  refine listed.imp (fun kept => ?_) fun added => ?_
  · rwa [List.map_map] at kept
  · obtain ⟨entry, built, rfl⟩ := List.mem_map.1 added
    obtain ⟨name, _, found⟩ := List.mem_filterMap.1 built
    unfold builtType? at found
    split at found
    · rename_i stored
      cases found
      exact List.mem_map_of_mem (List.mem_of_find?_eq_some stored)
    · cases found

/-- **Builds that differ in their numbers and resolvers agree.** Either both give schemas of one
shape, or both are rejected for one reason. -/
theorem agree_schema {asked : Name → Prop} {leftContext rightContext : BuildContext}
    (base : leftContext.base = rightContext.base) (plan : leftContext.plan = rightContext.plan)
    (asks : AsksOnly asked rightContext.plan) (sources : SourceMap) :
    Agree asked (fun one other => one.shape = other.shape ∧
        ∀ key ∈ one.types.keys, key ∈ leftContext.base.types.keys ∨ asked key)
      (schema leftContext sources) (schema rightContext sources) := by
  have alike := answerAlike_resolve base plan asks
  have directives : Agree asked Eq
      (rightContext.plan.newDirectives.foldlM (addDirective (resolve leftContext))
        rightContext.base.directives)
      (rightContext.plan.newDirectives.foldlM (addDirective (resolve rightContext))
        rightContext.base.directives) := by
    refine Agree.foldlM (fun definition member one other same => ?_) rfl
    rw [← same]
    exact agree_addDirective alike one (asks.directives definition member)
  unfold schema
  rw [base, plan]
  refine directives.bind fun one other same => (agree_resolveAll alike asks.keys).bind fun _ _ _ =>
    agree_get.bind ?_
  rintro state state' ⟨shapes, keys⟩
  refine .pure ⟨?_, fun key member => ?_⟩
  · have slots := congrArg BuildState.slots shapes
    simp only [BuildState.shape] at slots
    simp only [Schema.shape, shape_collect, base, plan, slots, same]
  · rw [← base]
    exact (mem_keys_collect member).imp_right (keys key)

end Build

end SchemaGraft
