import SchemaGraft.Proofs.Extension.Members

/-!
# What building a type does

Building succeeds only for a type that fits, and what it gives is the image of what the document
says (`meets_extendObject`, `meets_buildType`). Otherwise it is rejected for a reason of the type
itself or of a type that it asked for.
-/

set_option autoImplicit false

namespace SchemaGraft

namespace Build

variable {context : BuildContext} {fails : Rejection → Prop} {resolve : Resolve}

/-! ## Extended types -/

theorem AddsMembers.trans {α : Type} {first second third : NameMap (Node α)}
    {early late : List (Name × Node α)} (begins : AddsMembers first early second)
    (continues : AddsMembers second late third) : AddsMembers first (early ++ late) third where
  entries := by rw [continues.entries, begins.entries, List.append_assoc]
  fresh := by
    rw [List.map_append]
    refine areFresh_append_iff.2 ⟨begins.fresh, ?_⟩
    have keys : second.keys = first.keys ++ early.map (·.1) := by
      simp [OrderedMap.keys, begins.entries]
    exact keys ▸ continues.fresh

/-- What an object type is after some of its extensions. -/
structure HasClauses (context : BuildContext) (key : Name) (base : ObjectLikeType)
    (clauses : List (Node ObjectExtension)) (type : ObjectLikeType) : Prop where
  description : type.description = base.description
  name : type.name = base.name
  interfaces : type.interfaces.keys = base.interfaces.keys ++ clauses.flatMap (·.value.interfaces)
  directives : type.directives = base.directives ++ clauses.flatMap (·.value.directives)
  fields : AddsMembers base.fields
    (fieldEntries context.asRun key base.name (clauses.flatMap (·.value.fields))) type.fields
  fresh : AreFresh base.interfaces.keys (clauses.flatMap (·.value.interfaces))
  references : ∀ clause ∈ clauses, ∀ reference ∈ clause.clauseReferences base.name,
    reference.IsMet (declaredKind? context)

theorem HasClauses.nil (context : BuildContext) (key : Name) (base : ObjectLikeType) :
    HasClauses context key base [] base where
  description := rfl
  name := rfl
  interfaces := by simp
  directives := by simp
  fields := AddsMembers.nil base.fields
  fresh := areFresh_nil _
  references := by simp

section Clauses

variable {key : Name} {base type : ObjectLikeType} {before : List (Node ObjectExtension)}
  {clause : Node ObjectExtension}

/-- An interface that one extension repeats is repeated in all of them. -/
theorem HasClauses.repeatsInterface (has : HasClauses context key base before type)
    (after : List (Node ObjectExtension)) {rejection : Rejection}
    (repeats : RepeatsInterface type.name type.interfaces.keys
      (interfaceMentions clause.location clause.value.interfaces) rejection) :
    RepeatsInterface base.name base.interfaces.keys
      ((before ++ clause :: after).flatMap fun clause =>
        interfaceMentions clause.location clause.value.interfaces) rejection := by
  rw [has.name, has.interfaces] at repeats
  have whole := RepeatsInterface.of_part
    (before.flatMap fun clause => interfaceMentions clause.location clause.value.interfaces)
    (after.flatMap fun clause => interfaceMentions clause.location clause.value.interfaces)
    (by simpa only [List.map_flatMap, map_name_interfaceMentions] using repeats)
  simpa using whole

/-- A field that one extension repeats is repeated in all of them. -/
theorem HasClauses.repeatsMember (has : HasClauses context key base before type)
    (after : List (Node ObjectExtension)) {rejection : Rejection}
    (repeats : RepeatsMember type.name (memberMentions type.fields.entries)
      (fieldMentions clause.value.fields) rejection) :
    RepeatsMember base.name (memberMentions base.fields.entries)
      ((before ++ clause :: after).flatMap fun clause => fieldMentions clause.value.fields)
      rejection := by
  rw [has.name, has.fields.entries] at repeats
  have whole := RepeatsEarlier.of_part
    (before.flatMap fun clause => fieldMentions clause.value.fields)
    (after.flatMap fun clause => fieldMentions clause.value.fields)
    (by
      simpa only [memberMentions_append, memberMentions_fieldEntries, fieldMentions,
        List.map_flatMap] using repeats)
  simpa [fieldMentions] using whole

/-- A type that has some extensions has one more after its parts were added. -/
theorem HasClauses.append_singleton (has : HasClauses context key base before type)
    {interfaces : NameSet} {fields : NameMap (Node Field)}
    (keys : interfaces.keys = type.interfaces.keys ++ clause.value.interfaces)
    (fresh : AreFresh type.interfaces.keys clause.value.interfaces)
    (adds : AddsMembers type.fields
      (fieldEntries context.asRun key base.name clause.value.fields) fields)
    (met : ∀ reference ∈ clause.clauseReferences base.name,
      reference.IsMet (declaredKind? context)) :
    HasClauses context key base (before ++ [clause])
      { type with
        interfaces := interfaces
        directives := type.directives ++ clause.value.directives
        fields := fields } where
  description := has.description
  name := has.name
  interfaces := by simp [keys, has.interfaces]
  directives := by simp [has.directives]
  fields := by
    rw [List.flatMap_append, fieldEntries_append]
    exact has.fields.trans (by simpa using adds)
  fresh := by
    rw [List.flatMap_append]
    refine areFresh_append_iff.2 ⟨has.fresh, ?_⟩
    rw [← has.interfaces]
    simpa using fresh
  references := by
    rw [List.forall_mem_append, List.forall_mem_singleton]
    exact ⟨has.references, met⟩

/-- One more extension is applied to a type that has some already. -/
theorem meets_applyClause (answers : Answers context fails resolve)
    (after : List (Node ObjectExtension)) (has : HasClauses context key base before type)
    (interfaces : ∀ rejection, RepeatsInterface base.name base.interfaces.keys
      ((before ++ clause :: after).flatMap fun clause =>
        interfaceMentions clause.location clause.value.interfaces) rejection → fails rejection)
    (fields : ∀ rejection, RepeatsMember base.name (memberMentions base.fields.entries)
      ((before ++ clause :: after).flatMap fun clause => fieldMentions clause.value.fields)
      rejection → fails rejection)
    (unmet : ∀ rejection, LeavesUnmet (declaredKind? context) (clause.clauseReferences base.name)
      rejection → fails rejection) :
    Meets context (applyClause context resolve key type clause)
      (HasClauses context key base (before ++ [clause])) fails := by
  have listing : Meets context
      (addInterfaces resolve type.name clause.location type.interfaces clause.value.interfaces)
      (fun result => result.keys = type.interfaces.keys ++ clause.value.interfaces ∧
        AreFresh type.interfaces.keys clause.value.interfaces ∧
        ∀ reference ∈ interfaceReferences type.name clause.location clause.value.interfaces,
          reference.IsMet (declaredKind? context)) fails := by
    refine meets_addInterfaces answers ?_ ?_
    · exact fun rejection repeats => interfaces rejection (has.repeatsInterface after repeats)
    · rintro rejection ⟨reference, member, wrong⟩
      rw [has.name] at member
      exact unmet rejection ⟨reference, List.mem_append_left _ member, wrong⟩
  have adding : Meets context
      (addFields context resolve key type.name type.fields clause.value.fields)
      (fun result =>
        AddsMembers type.fields (fieldEntries context.asRun key type.name clause.value.fields)
          result ∧
        ∀ reference ∈ clause.value.fields.flatMap (Node.fieldReferences type.name),
          reference.IsMet (declaredKind? context)) fails := by
    refine meets_addFields answers ?_ ?_
    · exact fun rejection repeats => fields rejection (has.repeatsMember after repeats)
    · rintro rejection ⟨reference, member, wrong⟩
      rw [has.name] at member
      exact unmet rejection ⟨reference, List.mem_append_right _ member, wrong⟩
  refine listing.bind ?_
  rintro interfaces ⟨keys, fresh, interfaces_met⟩
  refine adding.bind ?_
  rintro fields ⟨adds, fields_met⟩
  rw [has.name] at adds interfaces_met fields_met
  refine .pure (has.append_singleton keys fresh adds ?_)
  rw [Node.clauseReferences, List.forall_mem_append]
  exact ⟨interfaces_met, fields_met⟩

end Clauses

theorem meets_extendObject (answers : Answers context fails resolve) {key : Name}
    {extended : ExtendedObject}
    (rejected : ∀ rejection, extended.IsRejected (declaredKind? context) rejection →
      fails rejection) :
    Meets context (extendObject context resolve key extended)
      (fun type => extended.Fits (declaredKind? context) ∧
        IsExtensionOf context.asRun key extended.base extended.clauses type) fails := by
  have applied : Meets context
      (extended.clauses.foldlM (applyClause context resolve key) extended.base.value)
      (HasClauses context key extended.base.value extended.clauses) fails := by
    refine Meets.foldlM (HasClauses context key extended.base.value)
      (HasClauses.nil context key extended.base.value) ?_
    intro before clause after type split has
    refine meets_applyClause answers after has (fun rejection repeats => ?_)
      (fun rejection repeats => ?_) (fun rejection unmet => ?_)
    · rw [← split] at repeats
      exact rejected rejection (.interface repeats)
    · rw [← split] at repeats
      exact rejected rejection (.field repeats)
    · exact rejected rejection (.reference (by simp [split]) unmet)
  refine applied.bind fun type has => .pure ⟨?_, ?_⟩
  · exact
      { interfaces := has.fresh
        fields := by
          have fresh := has.fields.fresh
          rwa [map_fst_fieldEntries, List.map_flatMap] at fresh
        references := has.references }
  · exact
      { identity := rfl
        location := rfl
        description := has.description
        name := has.name
        interfaces := has.interfaces
        directives := has.directives
        fields := has.fields.entries }

/-! ## New types -/

theorem meets_buildObjectLike (answers : Answers context fails resolve)
    {definition : Node ObjectLikeDefinition}
    (rejected : ∀ rejection, (TypeDefinition.object definition).IsRejected (declaredKind? context)
      rejection → fails rejection) :
    Meets context (buildObjectLike context resolve definition)
      (fun type => (TypeDefinition.object definition).Fits (declaredKind? context) ∧
        (TypeDefinition.object definition).Makes context.asRun (.object type)) fails := by
  have listing : Meets context
      (addInterfaces resolve definition.value.name definition.location OrderedMap.empty
        definition.value.interfaces)
      (fun result => result.keys = [] ++ definition.value.interfaces ∧
        AreFresh [] definition.value.interfaces ∧
        ∀ reference ∈ interfaceReferences definition.value.name definition.location
          definition.value.interfaces, reference.IsMet (declaredKind? context)) fails := by
    refine meets_addInterfaces answers ?_ ?_
    · exact fun rejection repeats => rejected rejection (.interface repeats)
    · rintro rejection ⟨reference, member, wrong⟩
      exact rejected rejection (.reference ⟨reference, List.mem_append_left _ member, wrong⟩)
  have adding : Meets context
      (addFields context resolve definition.value.name definition.value.name OrderedMap.empty
        definition.value.fields)
      (fun result =>
        AddsMembers OrderedMap.empty (fieldEntries context.asRun definition.value.name
          definition.value.name definition.value.fields) result ∧
        ∀ reference ∈ definition.value.fields.flatMap
          (Node.fieldReferences definition.value.name),
          reference.IsMet (declaredKind? context)) fails := by
    refine meets_addFields answers ?_ ?_
    · exact fun rejection repeats => rejected rejection (.member repeats)
    · rintro rejection ⟨reference, member, wrong⟩
      exact rejected rejection (.reference ⟨reference, List.mem_append_right _ member, wrong⟩)
  refine listing.bind ?_
  rintro interfaces ⟨keys, fresh, interfaces_met⟩
  refine adding.bind ?_
  rintro fields ⟨adds, fields_met⟩
  refine .pure ⟨?_, ?_⟩
  · exact
      { interfaces := by
          show AreFresh [] ((interfaceMentions _ _).map (·.name))
          rwa [map_name_interfaceMentions]
        members := by
          show AreFresh [] ((fieldMentions _).map (·.name))
          rw [map_name_fieldMentions]
          have new := adds.fresh
          rwa [map_fst_fieldEntries] at new
        references := by
          show ∀ reference ∈ _ ++ _, _
          rw [List.forall_mem_append]
          exact ⟨interfaces_met, fields_met⟩ }
  · exact
      { identity := rfl
        location := rfl
        description := rfl
        name := rfl
        directives := rfl
        members := ⟨keys, adds.entries⟩ }

theorem meets_buildUnion (answers : Answers context fails resolve)
    {definition : Node UnionDefinition}
    (rejected : ∀ rejection, (TypeDefinition.union definition).IsRejected (declaredKind? context)
      rejection → fails rejection) :
    Meets context (buildUnion context resolve definition)
      (fun type => (TypeDefinition.union definition).Fits (declaredKind? context) ∧
        (TypeDefinition.union definition).Makes context.asRun (.union type)) fails := by
  refine Meets.bind (meets_addMembers answers fun rejection unmet =>
    rejected rejection (.reference unmet)) ?_
  rintro members ⟨keys, met⟩
  refine .pure ⟨?_, ?_⟩
  · exact { interfaces := areFresh_nil [], members := areFresh_nil [], references := met }
  · exact
      { identity := rfl
        location := rfl
        description := rfl
        name := rfl
        directives := rfl
        members := keys }

theorem meets_buildEnum {definition : Node EnumDefinition}
    (rejected : ∀ rejection, (TypeDefinition.enum definition).IsRejected (declaredKind? context)
      rejection → fails rejection) :
    Meets context (buildEnum context definition)
      (fun type => (TypeDefinition.enum definition).Fits (declaredKind? context) ∧
        (TypeDefinition.enum definition).Makes context.asRun (.enum type)) fails := by
  refine Meets.bind (meets_addEnumValues fun rejection repeats =>
    rejected rejection (.member repeats)) fun values adds => .pure ⟨?_, ?_⟩
  · exact
      { interfaces := areFresh_nil []
        members := by
          have fresh : AreFresh [] _ := adds.fresh
          simpa [TypeDefinition.members, Function.comp_def] using fresh
        references := by simp [TypeDefinition.references] }
  · exact
      { identity := rfl
        location := rfl
        description := rfl
        name := rfl
        directives := rfl
        members := adds.entries }

theorem meets_buildInputObject (answers : Answers context fails resolve)
    {definition : Node InputObjectDefinition}
    (rejected : ∀ rejection, (TypeDefinition.inputObject definition).IsRejected
      (declaredKind? context) rejection → fails rejection) :
    Meets context (buildInputObject context resolve definition)
      (fun type => (TypeDefinition.inputObject definition).Fits (declaredKind? context) ∧
        (TypeDefinition.inputObject definition).Makes context.asRun (.inputObject type)) fails := by
  refine Meets.bind (meets_addInputFields answers
    (fun rejection repeats => rejected rejection (.member repeats))
    fun rejection unmet => rejected rejection (.reference unmet)) ?_
  rintro fields ⟨adds, met⟩
  refine .pure ⟨?_, ?_⟩
  · exact
      { interfaces := areFresh_nil []
        members := by
          have fresh : AreFresh [] _ := adds.fresh
          simpa [TypeDefinition.members, Function.comp_def] using fresh
        references := met }
  · exact
      { identity := rfl
        location := rfl
        description := rfl
        name := rfl
        directives := rfl
        members := adds.entries }

theorem meets_buildType (answers : Answers context fails resolve) (definition : TypeDefinition)
    (rejected : ∀ rejection, definition.IsRejected (declaredKind? context) rejection →
      fails rejection) :
    Meets context (buildType context resolve definition)
      (fun type => definition.Fits (declaredKind? context) ∧ definition.Makes context.asRun type)
      fails := by
  cases definition with
  | scalar definition =>
      refine .pure ⟨⟨areFresh_nil [], areFresh_nil [], by simp [TypeDefinition.references]⟩, ?_⟩
      exact ⟨rfl, rfl, rfl, rfl, rfl, trivial⟩
  | object definition =>
      exact (meets_buildObjectLike answers rejected).bind fun type built => .pure built
  | interface definition =>
      refine (meets_buildObjectLike answers ?_).bind ?_
      · intro rejection reason
        cases reason with
        | interface repeats => exact rejected rejection (.interface repeats)
        | member repeats => exact rejected rejection (.member repeats)
        | reference unmet => exact rejected rejection (.reference unmet)
      · rintro type ⟨fits, makes⟩
        refine .pure ⟨?_, ?_⟩
        · exact ⟨fits.interfaces, fits.members, fits.references⟩
        · exact ⟨makes.identity, makes.location, makes.description, makes.name, makes.directives,
            makes.members⟩
  | union definition =>
      exact (meets_buildUnion answers rejected).bind fun type built => .pure built
  | enum definition =>
      exact (meets_buildEnum rejected).bind fun type built => .pure built
  | inputObject definition =>
      exact (meets_buildInputObject answers rejected).bind fun type built => .pure built

end Build

end SchemaGraft
