import Mathlib.Data.List.Nodup
import SchemaGraft.Proofs.Extension.Assembly
import SchemaGraft.Proofs.Extension.Laziness

/-!
# The order in which types are begun

Types are begun when they are first asked for. A document is gone through from its directives on to
the types that are extended and those that are defined, and as soon as a type is begun, whatever it
refers to is asked for, before anything else. So the names under which types are begun come in an
order (`Build.Opens`) that depends on the document alone, and there is only one
(`Build.Opens.unique`).

**One step.** Whoever builds a part of a type begins what this part refers to, one name after the
other, if requests begin what they find (`Build.Begins`, `Build.OpensRequests`). By induction on how
deep requests nest, they do (`Build.opensRequests_resolve`).

**The whole build.** So a build that succeeds has begun its types in the order of the document
(`Build.opens_schema`).
-/

set_option autoImplicit false

namespace SchemaGraft

/-! ## The names in a document -/

namespace Definition

/-- The names that the type of a name refers to: in the extensions of the type, or in its
definition. -/
def refersTo (definitions : List Definition) (name : Name) : List Name :=
  (clausesFor definitions name).flatMap
      (fun clause => (clause.clauseReferences clause.value.name).map (·.name)) ++
    ((typesAmong definitions).find? (·.name == name)).elim []
      fun definition => definition.references.map (·.name)

/-- The names that are come upon first: those that directives refer to, and those of the types that
are extended and defined. -/
def askedFirst (definitions : List Definition) : List Name :=
  (directivesAmong definitions).flatMap
      (fun definition => definition.directiveReferences.map (·.name)) ++
    ((clausesAmong definitions).map (·.value.name) ++ (typesAmong definitions).map (·.name))

/-- What a type refers to is in a definition of the document. -/
theorem exists_of_mem_refersTo {definitions : List Definition} {name other : Name}
    (member : name ∈ refersTo definitions other) :
    ∃ definition ∈ definitions, ∃ reference ∈ definition.references, reference.name = name := by
  rcases List.mem_append.1 member with referred | referred
  · obtain ⟨clause, listed, referred⟩ := List.mem_flatMap.1 referred
    obtain ⟨reference, here, rfl⟩ := List.mem_map.1 referred
    exact ⟨_, mem_clausesAmong_iff.1 (mem_clausesFor_iff.1 listed).1, reference, here, rfl⟩
  · cases found : (typesAmong definitions).find? (·.name == other) with
    | none =>
        rw [found] at referred
        cases referred
    | some definition =>
        rw [found] at referred
        obtain ⟨reference, here, rfl⟩ := List.mem_map.1 referred
        exact ⟨_, mem_typesAmong_iff.1 (List.mem_of_find?_eq_some found), reference, here, rfl⟩

theorem askedFirst_of_none {definitions : List Definition}
    (clauses : ∀ name, clausesFor definitions name = []) (types : typesAmong definitions = [])
    (directives : directivesAmong definitions = []) : askedFirst definitions = [] := by
  have none : clausesAmong definitions = [] := by
    rw [List.eq_nil_iff_forall_not_mem]
    intro clause listed
    have member := mem_clausesFor_iff.2 ⟨listed, BEq.rfl⟩
    rw [clauses] at member
    cases member
  rw [askedFirst, none, types, directives]
  rfl

end Definition

namespace Build

/-! ## The order in which types are begun -/

/-- The names whose types are begun when names are asked for one after the other. A name whose type
has been begun is passed over. Any other one is begun, and the names that its type refers to come
before the next. -/
inductive Opens (refers : Name → List Name) : (begun names after : List Name) → Prop where
  | done {begun : List Name} : Opens refers begun [] begun
  | again {begun rest after : List Name} {name : Name}
      (there : name.text ∈ begun.map (·.text)) (later : Opens refers begun rest after) :
      Opens refers begun (name :: rest) after
  | first {begun rest middle after : List Name} {name : Name}
      (new : name.text ∉ begun.map (·.text))
      (inner : Opens refers (begun ++ [name]) (refers name) middle)
      (later : Opens refers middle rest after) : Opens refers begun (name :: rest) after

namespace Opens

variable {refers : Name → List Name} {begun middle after names more : List Name}

theorem append (first : Opens refers begun names middle) (second : Opens refers middle more after) :
    Opens refers begun (names ++ more) after := by
  induction first with
  | done => exact second
  | again there _ ih => exact .again there (ih second)
  | first new inner _ _ ih => exact .first new inner (ih second)

theorem exists_of_append (opens : Opens refers begun (names ++ more) after) :
    ∃ middle, Opens refers begun names middle ∧ Opens refers middle more after := by
  induction names generalizing begun with
  | nil => exact ⟨begun, .done, opens⟩
  | cons name rest ih =>
      cases opens with
      | again there later =>
          obtain ⟨middle, early, late⟩ := ih later
          exact ⟨middle, .again there early, late⟩
      | first new inner later =>
          obtain ⟨middle, early, late⟩ := ih later
          exact ⟨middle, .first new inner early, late⟩

/-- What was begun stays begun. -/
theorem begun_subset (opens : Opens refers begun names after) : begun ⊆ after := by
  induction opens with
  | done => exact List.Subset.refl _
  | again _ _ ih => exact ih
  | first _ _ _ inner_ih later_ih =>
      exact List.Subset.trans (List.subset_append_left _ _) (List.Subset.trans inner_ih later_ih)

/-- Whatever is asked for has been begun in the end. -/
theorem text_mem_after (opens : Opens refers begun names after) {name : Name}
    (asked : name ∈ names) : name.text ∈ after.map (·.text) := by
  induction opens with
  | done => cases asked
  | again there later ih =>
      rcases List.mem_cons.1 asked with rfl | asked
      · exact List.map_subset _ later.begun_subset there
      · exact ih asked
  | first _ inner later _ ih =>
      rcases List.mem_cons.1 asked with rfl | asked
      · refine List.mem_map_of_mem (later.begun_subset (inner.begun_subset ?_))
        exact List.mem_append_right _ List.mem_cons_self
      · exact ih asked

/-- Nothing is begun twice. -/
theorem nodup (opens : Opens refers begun names after) (distinct : (begun.map (·.text)).Nodup) :
    (after.map (·.text)).Nodup := by
  induction opens with
  | done => exact distinct
  | again _ _ ih => exact ih distinct
  | first new _ _ inner_ih later_ih =>
      refine later_ih (inner_ih ?_)
      rw [List.map_append, List.map_singleton, List.nodup_append]
      refine ⟨distinct, List.nodup_singleton _, ?_⟩
      rintro text earlier _ added rfl
      exact new (List.mem_singleton.1 added ▸ earlier)

/-- What is begun was asked for, by whoever asks or by a type that was begun. -/
theorem origin (opens : Opens refers begun names after) {name : Name} (member : name ∈ after) :
    name ∈ begun ∨ name ∈ names ∨ ∃ other ∈ after, name ∈ refers other := by
  induction opens with
  | done => exact .inl member
  | again _ _ ih =>
      exact (ih member).imp_right (·.imp_left (List.mem_cons_of_mem _))
  | @first begun rest middle after asked _ inner later inner_ih later_ih =>
      rcases later_ih member with early | asked | below
      · rcases inner_ih early with early | asked | ⟨other, listed, referred⟩
        · rcases List.mem_append.1 early with early | here
          · exact .inl early
          · exact .inr (.inl (List.mem_singleton.1 here ▸ List.mem_cons_self))
        · refine .inr (.inr ⟨_, later.begun_subset (inner.begun_subset ?_), asked⟩)
          exact List.mem_append_right _ List.mem_cons_self
        · exact .inr (.inr ⟨other, later.begun_subset listed, referred⟩)
      · exact .inr (.inl (List.mem_cons_of_mem _ asked))
      · exact .inr (.inr below)

/-- **There is only one order.** -/
theorem unique {other : List Name} (opens : Opens refers begun names after)
    (also : Opens refers begun names other) : after = other := by
  induction opens generalizing other with
  | done =>
      cases also
      rfl
  | again there _ ih =>
      cases also with
      | again _ later => exact ih later
      | first new => exact absurd there new
  | first new _ _ inner_ih later_ih =>
      cases also with
      | again there => exact absurd there new
      | first _ inner later =>
          cases inner_ih inner
          exact later_ih later

/-- To ask for a name again makes no difference. -/
theorem of_distinct (opens : Opens refers begun (Name.distinct names) after) :
    Opens refers begun names after := by
  induction names using List.reverseRecOn generalizing after with
  | nil => exact opens
  | append_singleton names name ih =>
      rw [Name.distinct_append_singleton] at opens
      split at opens
      · rename_i listed
        refine (ih opens).append (.again ?_ .done)
        obtain ⟨earlier, asked, same⟩ := List.mem_map.1 listed
        exact same ▸ (ih opens).text_mem_after asked
      · obtain ⟨middle, early, late⟩ := opens.exists_of_append
        exact (ih early).append late

end Opens

/-! ## What a step of building begins -/

variable {α β : Type} {context : BuildContext} {refers : Name → List Name}

/-- A step of building that succeeds begins the types that are begun when some names are asked
for. -/
def Begins (refers : Name → List Name) (names : List Name) (build : Build α) : Prop :=
  ∀ state, match build.run state with
    | .ok _ after => Opens refers state.slots.keys names after.slots.keys
    | .error _ _ => True

namespace Begins

theorem pure (value : α) : Begins refers [] (Pure.pure value : Build α) := fun _ => .done

theorem throw (rejection : Rejection) (names : List Name) :
    Begins refers names (MonadExcept.throw rejection : Build α) := fun _ => trivial

theorem bind {first : Build α} {second : α → Build β} {names more : List Name}
    (early : Begins refers names first) (late : ∀ value, Begins refers more (second value)) :
    Begins refers (names ++ more) (first >>= second) := by
  intro state
  have opens := early state
  rw [EStateM.run_bind]
  cases result : first.run state with
  | error rejection _ => trivial
  | ok value middle =>
      rw [result] at opens
      have further := late value middle
      dsimp only
      cases last : (second value).run middle with
      | error rejection _ => trivial
      | ok _ after =>
          rw [last] at further
          exact opens.append further

/-- What comes after asking may ask for nothing more. -/
theorem andThen {first : Build α} {second : α → Build β} {names : List Name}
    (early : Begins refers names first) (late : ∀ value, Begins refers [] (second value)) :
    Begins refers names (first >>= second) :=
  List.append_nil names ▸ early.bind late

theorem foldlM {step : α → β → Build α} {asked : β → List Name}
    (each : ∀ value item, Begins refers (asked item) (step value item)) (items : List β)
    (start : α) :
    Begins refers (items.flatMap asked) (items.foldlM step start) := by
  induction items generalizing start with
  | nil => exact .pure start
  | cons item rest ih =>
      rw [List.foldlM_cons, List.flatMap_cons]
      exact (each start item).bind fun value => ih value

end Begins

/-- Requests that find a type begin it, unless it has been, and what it refers to. They find those
that are declared. -/
def OpensRequests (context : BuildContext) (refers : Name → List Name) (resolve : Resolve) : Prop :=
  ∀ name (state : BuildState), match (resolve name).run state with
    | .ok (some _) after => Opens refers state.slots.keys [name] after.slots.keys
    | .ok none _ => declaredKind? context name = none
    | .error _ _ => True

/-! ### Members and types -/

theorem names_interfaceReferences (type : Name) (location : Option Location)
    (interfaces : List Name) :
    (interfaceReferences type location interfaces).map (·.name) = interfaces := by
  simp [interfaceReferences, Function.comp_def]

/-- To which names a field refers does not depend on what its type is called. -/
theorem names_fieldReferences (type other : Name) (definition : Node FieldDefinition) :
    (definition.fieldReferences type).map (·.name) =
      (definition.fieldReferences other).map (·.name) := by
  simp [Node.fieldReferences, Node.inputReference, Function.comp_def]

section Members

variable {resolve : Resolve} (requests : OpensRequests context refers resolve)
include requests

theorem begins_reference (name : Name) (location : Option Location) (expected : ExpectedKind)
    (site : ReferenceSite) :
    Begins refers [name] (Build.reference resolve name location expected site) := by
  intro state
  have answered := requests name state
  rw [Build.reference, EStateM.run_bind]
  cases result : (resolve name).run state with
  | error rejection _ => trivial
  | ok kind after =>
      rw [result] at answered
      cases kind with
      | none => trivial
      | some found =>
          dsimp only
          cases expected.accepts found with
          | true => exact answered
          | false => trivial

theorem begins_referenceAll (references : List Reference) :
    Begins refers (references.map (·.name)) (referenceAll resolve references) := by
  induction references with
  | nil => exact .pure ()
  | cons reference rest ih => exact (begins_reference requests _ _ _ _).bind fun _ => ih

omit requests in
theorem begins_rejectDuplicate {μ : Type} (type : Name) (members : NameMap (Node μ)) (name : Name)
    (location : Option Location) :
    Begins refers [] (rejectDuplicate type members name location) := by
  unfold rejectDuplicate
  cases members.get? name with
  | none => exact .pure ()
  | some previous => exact .throw _ _

theorem begins_addInterface (type : Name) (clause : Option Location) (interfaces : NameSet)
    (interface : Name) :
    Begins refers [interface] (addInterface resolve type clause interfaces interface) := by
  have reference := begins_reference requests interface (interface.location.or clause) .interface
    (.implementedInterface type)
  unfold addInterface
  cases interfaces.contains interface with
  | true => exact (Begins.throw _ []).bind fun _ => reference.andThen fun _ => .pure _
  | false => exact reference.andThen fun _ => .pure _

theorem begins_addInterfaces (type : Name) (clause : Option Location) (interfaces : NameSet)
    (added : List Name) :
    Begins refers added (addInterfaces resolve type clause interfaces added) := by
  have each := Begins.foldlM (begins_addInterface requests type clause) added interfaces
  rwa [List.flatMap_singleton'] at each

theorem begins_addField (key type : Name) (fields : NameMap (Node Field))
    (definition : Node FieldDefinition) :
    Begins refers ((definition.fieldReferences type).map (·.name))
      (addField context resolve key type fields definition) := by
  unfold addField
  simp only [referenceArguments_eq]
  exact (begins_rejectDuplicate _ _ _ _).bind fun _ => (begins_reference requests _ _ _ _).bind
    fun _ => (begins_referenceAll requests _).andThen fun _ => .pure _

theorem begins_addFields (key type : Name) (fields : NameMap (Node Field))
    (added : List (Node FieldDefinition)) :
    Begins refers ((added.flatMap (Node.fieldReferences type)).map (·.name))
      (addFields context resolve key type fields added) := by
  rw [List.map_flatMap]
  exact .foldlM (begins_addField requests key type) added fields

theorem begins_addMember (type : Name) (location : Option Location) (members : NameSet)
    (member : Name) : Begins refers [member] (addMember resolve type location members member) :=
  (begins_reference requests _ _ _ _).andThen fun _ => .pure _

theorem begins_buildUnion (definition : Node UnionDefinition) :
    Begins refers (definition.unionReferences.map (·.name))
      (buildUnion context resolve definition) := by
  have names : definition.unionReferences.map (·.name) =
      definition.value.members.flatMap fun member => [member] := by
    simp [Node.unionReferences, Function.comp_def]
  rw [names]
  exact (Begins.foldlM (begins_addMember requests _ _) _ _).andThen fun _ => .pure _

omit requests in
theorem begins_buildEnum (definition : Node EnumDefinition) :
    Begins refers [] (buildEnum context definition) := by
  have each : ∀ values item, Begins refers []
      (addEnumValue context definition.value.name values item) :=
    fun _ _ => (begins_rejectDuplicate _ _ _ _).andThen fun _ => .pure _
  have all := Begins.foldlM each definition.value.values OrderedMap.empty
  rw [List.flatMap_eq_nil_iff.2 fun _ _ => rfl] at all
  exact all.andThen fun _ => .pure _

theorem begins_addInputField (type : Name) (fields : NameMap (Node InputValueDefinition))
    (definition : Node InputValueDefinition) :
    Begins refers [definition.value.type.value.innerName]
      (addInputField resolve type fields definition) :=
  (begins_rejectDuplicate _ _ _ _).bind fun _ =>
    (begins_reference requests _ _ _ _).andThen fun _ => .pure _

theorem begins_buildInputObject (definition : Node InputObjectDefinition) :
    Begins refers (definition.value.fields.map (·.value.type.value.innerName))
      (buildInputObject context resolve definition) := by
  rw [← List.flatMap_pure_eq_map]
  exact (Begins.foldlM (begins_addInputField requests _) _ _).andThen fun _ => .pure _

theorem begins_buildObjectLike (definition : Node ObjectLikeDefinition) :
    Begins refers (definition.objectLikeReferences.map (·.name))
      (buildObjectLike context resolve definition) := by
  rw [Node.objectLikeReferences, List.map_append, names_interfaceReferences]
  exact (begins_addInterfaces requests _ _ _ _).bind fun _ =>
    (begins_addFields requests _ _ _ _).andThen fun _ => .pure _

/-- Building a new type begins what its definition refers to. -/
theorem begins_buildType (definition : TypeDefinition) :
    Begins refers (definition.references.map (·.name)) (buildType context resolve definition) := by
  cases definition with
  | scalar definition => exact .pure _
  | object definition => exact (begins_buildObjectLike requests _).andThen fun _ => .pure _
  | interface definition => exact (begins_buildObjectLike requests _).andThen fun _ => .pure _
  | union definition => exact (begins_buildUnion requests _).andThen fun _ => .pure _
  | enum definition => exact (begins_buildEnum _).andThen fun _ => .pure _
  | inputObject definition =>
      have names : (TypeDefinition.inputObject definition).references.map (·.name) =
          definition.value.fields.map (·.value.type.value.innerName) := by
        simp [TypeDefinition.references, Node.inputReference, Function.comp_def]
      rw [names]
      exact (begins_buildInputObject requests _).andThen fun _ => .pure _

theorem begins_applyClause (key : Name) (type : ObjectLikeType) (clause : Node ObjectExtension) :
    Begins refers ((clause.clauseReferences clause.value.name).map (·.name))
      (applyClause context resolve key type clause) := by
  have fields :
      (clause.value.fields.flatMap (Node.fieldReferences clause.value.name)).map (·.name) =
        (clause.value.fields.flatMap (Node.fieldReferences type.name)).map (·.name) := by
    rw [List.map_flatMap, List.map_flatMap]
    exact congrArg (clause.value.fields.flatMap ·) (funext (names_fieldReferences _ _))
  rw [Node.clauseReferences, List.map_append, names_interfaceReferences, fields]
  exact (begins_addInterfaces requests _ _ _ _).bind fun _ =>
    (begins_addFields requests _ _ _ _).andThen fun _ => .pure _

/-- Building a type with its extensions begins what these refer to. -/
theorem begins_extendObject (key : Name) (extended : ExtendedObject) :
    Begins refers
      (extended.clauses.flatMap fun clause =>
        (clause.clauseReferences clause.value.name).map (·.name))
      (extendObject context resolve key extended) :=
  (Begins.foldlM (begins_applyClause requests key) _ _).andThen fun _ => .pure _

theorem begins_addDirective (directives : NameMap (Node DirectiveDefinition))
    (definition : Node DirectiveDefinition) :
    Begins refers (definition.directiveReferences.map (·.name))
      (addDirective resolve directives definition) := by
  unfold addDirective
  dsimp only
  cases directives.get? definition.value.name with
  | some previous => exact .throw _ _
  | none =>
      simp only [referenceDirectiveArguments_eq]
      refine (begins_referenceAll requests _).andThen fun _ => ?_
      have record : Begins refers [] (record (.addedDirective definition.value.name)) :=
        fun _ => .done
      exact record.andThen fun _ => .pure _

/-- Names that are declared are asked for one after the other. -/
theorem begins_resolveAll {names : List Name}
    (declared : ∀ name ∈ names, (declaredKind? context name).isSome = true) :
    Begins refers names (resolveAll resolve names) := by
  induction names with
  | nil => exact .pure ()
  | cons name rest ih =>
      rw [List.forall_mem_cons] at declared
      have asked : Begins refers [name] (resolve name) := by
        intro state
        have answered := requests name state
        cases result : (resolve name).run state with
        | error rejection _ => trivial
        | ok kind after =>
            rw [result] at answered
            cases kind with
            | none =>
                rw [answered] at declared
                cases declared.1
            | some found => exact answered
      exact asked.bind fun _ => ih declared.2

end Members

/-! ### Requests -/

/-- A type that is begun comes under the name that asks, and what its type refers to comes
behind. -/
theorem opens_build (wrap : α → SchemaType) {name : Name} {kind : TypeKind} {event : Event}
    {action : Build α} (begins : Begins refers (refers name) action) {state : BuildState}
    (absent : state.slots.get? name = none) :
    match (do
      store name (.inProgress kind)
      let value ← action
      record event
      store name (.built (wrap value))
      return some kind : Build (Option TypeKind)).run state with
    | .ok (some _) after => Opens refers state.slots.keys [name] after.slots.keys
    | .ok none _ => declaredKind? context name = none
    | .error _ _ => True := by
  have new := (OrderedMap.get?_eq_none_iff _ _).1 absent
  have inner := begins (state.withSlot name (.inProgress kind))
  simp only [store, record, EStateM.run_bind, EStateM.run_modify]
  unfold BuildState.withSlot at inner
  cases result : action.run { state with slots := state.slots.insert name (.inProgress kind) } with
  | error rejection _ => trivial
  | ok value between =>
      rw [result] at inner
      dsimp only at inner
      rw [OrderedMap.keys_insert_of_absent _ new] at inner
      have there : between.slots.contains name = true := by
        rw [NameMap.contains_iff]
        exact List.mem_map_of_mem (inner.begun_subset (List.mem_append_right _ List.mem_cons_self))
      show Opens refers state.slots.keys [name] (between.slots.insert name _).keys
      rw [OrderedMap.keys_insert_of_present _ there]
      exact .first ((NameMap.contains_eq_false_iff _ _).1 new) inner .done

section Plan

variable {definitions : List Definition} (isFor : context.plan.IsFor context.base definitions)
include isFor

/-- The names of the types of the base schema are not defined. -/
theorem find?_typesAmong_of_base {name : Name} {type : SchemaType}
    (found : context.base.types.get? name = some type) :
    (Definition.typesAmong definitions).find? (·.name == name) = none := by
  rw [List.find?_eq_none]
  intro definition member same
  have absent := (absent_of_added isFor member).1
  rw [OrderedMap.get?_congr _ same, found] at absent
  cases absent

theorem refersTo_of_extended {name : Name} {extended : ExtendedObject}
    (planned : context.plan.extended.get? name = some extended) :
    Definition.refersTo definitions name = extended.clauses.flatMap fun clause =>
      (clause.clauseReferences clause.value.name).map (·.name) := by
  obtain ⟨found, clauses, _⟩ := isFor.extended_eq planned
  rw [Definition.refersTo, find?_typesAmong_of_base isFor found, clauses]
  exact List.append_nil _

theorem clausesFor_of_unextended {name : Name}
    (unplanned : context.plan.extended.get? name = none) :
    Definition.clausesFor definitions name = [] := by
  by_contra some
  obtain ⟨type, _, planned⟩ := isFor.extended some
  rw [unplanned] at planned
  cases planned

theorem opensRequests_resolveWith {resolve : Resolve}
    (requests : OpensRequests context (Definition.refersTo definitions) resolve) :
    OpensRequests context (Definition.refersTo definitions) (resolveWith context resolve) := by
  intro name state
  simp only [resolveWith, EStateM.run_bind, EStateM.run_get]
  cases found : state.slots.get? name with
  | some slot =>
      have there := (NameMap.contains_iff _ _).1 (OrderedMap.contains_of_get? found)
      exact .again there .done
  | none =>
      dsimp only
      unfold begin?
      cases planned : context.plan.extended.get? name with
      | some extended =>
          refine opens_build .object ?_ found
          rw [refersTo_of_extended isFor planned]
          exact begins_extendObject requests _ _
      | none =>
          have unextended := clausesFor_of_unextended isFor planned
          cases base : context.base.types.get? name with
          | some type =>
              have new := (OrderedMap.get?_eq_none_iff _ _).1 found
              have nothing : Definition.refersTo definitions name = [] := by
                rw [Definition.refersTo, find?_typesAmong_of_base isFor base, unextended]
                rfl
              show Opens _ state.slots.keys [name] (state.slots.insert name _).keys
              rw [OrderedMap.keys_insert_of_absent _ new]
              refine .first ((NameMap.contains_eq_false_iff _ _).1 new) ?_ .done
              rw [nothing]
              exact .done
          | none =>
              cases added : context.plan.newTypes.get? name with
              | some definition =>
                  refine opens_build id ?_ found
                  rw [isFor.get?_newTypes] at added
                  rw [Definition.refersTo, unextended, added]
                  exact begins_buildType requests definition
              | none =>
                  rw [OrderedMap.get?_eq_none_iff] at planned
                  show declaredKind? context name = none
                  simp [declaredKind?, planned, base, added]

/-- **Whoever asks for types begins them in the order of the document.** -/
theorem opensRequests_resolve :
    OpensRequests context (Definition.refersTo definitions) (Build.resolve context) := by
  -- How the innermost requests are answered does not matter, so that here they are all rejected.
  rw [← iterate_resolveWith (fun name => throw (.unknownTargetType name none)) (Nat.le_refl _)]
  induction depthBound context.plan with
  | zero => exact fun _ _ => trivial
  | succ depth ih =>
      rw [Function.iterate_succ_apply']
      exact opensRequests_resolveWith isFor ih

omit isFor in
/-- The names of a plan are declared. -/
theorem isSome_declaredKind?_of_mem_keys {name : Name}
    (member : name ∈ context.plan.extended.keys ++ context.plan.newTypes.keys) :
    (declaredKind? context name).isSome = true := by
  unfold declaredKind?
  rcases List.mem_append.1 member with listed | listed
  · rw [if_pos ((OrderedMap.contains_iff_exists_key _ _).2 ⟨name, listed, BEq.rfl⟩)]
    rfl
  · split
    · rfl
    · have named := (OrderedMap.contains_iff_exists_key _ _).2 ⟨name, listed, BEq.rfl⟩
      rw [OrderedMap.contains_eq_isSome_get?] at named
      rw [Option.isSome_or, Option.isSome_map, Option.isSome_map, named, Bool.or_true]

/-- **A build that succeeds has begun its types in the order of the document.** -/
theorem opens_schema (planned : context.plan.extended.keys =
      Name.distinct ((Definition.clausesAmong definitions).map (·.value.name)))
    (sources : SourceMap) {schema : Schema} {state : BuildState}
    (succeeds : (Build.schema context sources).run .initial = .ok schema state) :
    Opens (Definition.refersTo definitions) [] (Definition.askedFirst definitions)
      state.slots.keys := by
  have requests := opensRequests_resolve isFor
  have directives := Begins.foldlM (begins_addDirective requests) context.plan.newDirectives
    context.base.directives
  have types := begins_resolveAll requests fun _ => isSome_declaredKind?_of_mem_keys
  have all : Begins (Definition.refersTo definitions) _ (Build.schema context sources) :=
    directives.bind fun _ => types.andThen fun _ _ => .done
  have opens := all .initial
  rw [succeeds] at opens
  obtain ⟨middle, early, late⟩ := opens.exists_of_append
  obtain ⟨last, extended, added⟩ := late.exists_of_append
  rw [planned] at extended
  rw [isFor.newDirectives] at early
  rw [isFor.keys_newTypes] at added
  exact early.append (extended.of_distinct.append added)

end Plan

end Build

/-- A plan has each name that is extended once. -/
theorem ExtensionPlan.keys_extended {base : Schema} {definitions : List Definition}
    {plan : ExtensionPlan} (planned : ExtensionPlan.ofDefinitions base definitions = .ok plan) :
    plan.extended.keys =
      Name.distinct ((Definition.clausesAmong definitions).map (·.value.name)) := by
  induction definitions using List.reverseRecOn generalizing plan with
  | nil =>
      cases planned
      rfl
  | append_singleton before definition ih =>
      rw [ofDefinitions_append_singleton] at planned
      cases earlier : ofDefinitions base before with
      | error rejection =>
          rw [earlier] at planned
          cases planned
      | ok middle =>
          rw [earlier] at planned
          have keys := ih earlier
          rw [Definition.clausesAmong_append, List.map_append]
          cases definition with
          | objectExtension extension =>
              simp only [Except.bind, ExtensionPlan.add, ExtensionPlan.addExtension] at planned
              cases aimed : target base extension.value.name extension.location with
              | error rejection =>
                  rw [aimed] at planned
                  cases planned
              | ok type =>
                  rw [aimed] at planned
                  cases planned
                  exact NameMap.keys_insert_of_distinct _ keys
          | otherExtension extension => cases planned
          | type definition =>
              simp only [Except.bind, ExtensionPlan.add, ExtensionPlan.addType] at planned
              split at planned
              · cases planned
              · cases planned
              · cases planned
                exact keys.trans (congrArg _ (List.append_nil _).symm)
          | directive definition =>
              cases planned
              exact keys.trans (congrArg _ (List.append_nil _).symm)
          | unrelated definition =>
              cases planned
              exact keys.trans (congrArg _ (List.append_nil _).symm)

end SchemaGraft
