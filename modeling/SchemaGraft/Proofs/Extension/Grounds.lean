import SchemaGraft.Proofs.Closure
import SchemaGraft.Proofs.DocumentPlaces

/-!
# The grounds of rejections

A rejection may arise deep inside a chain of requests that some other type has begun. Still, all
that it says is so. `Rejection.IsGenuine` reads each kind of rejection as a statement about the
schema and the document as they are given, without any trace of how the schema was being built.

**What is first.** Names are looked at before anything is built. A rejection that can be told from
names is about the first definition that breaks the rules for names, and there is no other rejection
while these rules are broken (`Rejection.ComesFirst`).

**Where it is.** In a document that was read from a text, a rejection shows a place of that text. An
interface or member in a list is shown itself, not the type that lists it
(`Rejection.IsPlacedIn`).
-/

set_option autoImplicit false

namespace SchemaGraft

/-! ## Types under their own names -/

/-- A type that is found under a name has that name itself. -/
def Schema.HasOwnNames (schema : Schema) : Prop :=
  ∀ name type, schema.types.get? name = some type → type.name.text = name.text

theorem Schema.IsMerge.hasOwnNames {run : ExtensionRun} {base merged : Schema}
    {definitions : List Definition} (admits : base.Admits definitions)
    (isMerge : Schema.IsMerge run base definitions merged) (own : base.HasOwnNames) :
    merged.HasOwnNames := by
  intro name type found
  obtain ⟨kept, _⟩ | ⟨object, extended, target, _, rfl, extension⟩ |
      ⟨definition, _, same, makes⟩ := isMerge.type_cases admits found
  · exact own name type kept
  · show extended.value.name.text = name.text
    rw [extension.name]
    exact own name _ target
  · rw [makes.name]
    exact Name.beq_iff_text_eq.1 same

theorem Schema.Reachable.hasOwnNames {schema : Schema} (reachable : schema.Reachable) :
    schema.HasOwnNames :=
  reachable.of_merge (fun _ _ found => by cases found)
    fun admits isMerge own => isMerge.hasOwnNames admits own

/-! ## What types list -/

/-- A type that a document extends or defines: what it lists already, and what the document adds, in
the order in which it is written. Values of enums count as members, like fields. -/
structure TypeGrowth where
  type : Name
  interfaces : List Name
  members : List Mention
  newInterfaces : List Mention
  newMembers : List Mention

/-- An object type with extensions. -/
def Node.growth (object : Node ObjectLikeType) (clauses : List (Node ObjectExtension)) :
    TypeGrowth where
  type := object.value.name
  interfaces := object.value.interfaces.keys
  members := memberMentions object.value.fields.entries
  newInterfaces := clauses.flatMap fun clause =>
    interfaceMentions clause.location clause.value.interfaces
  newMembers := clauses.flatMap fun clause => fieldMentions clause.value.fields

/-- A new type. -/
def TypeDefinition.growth (definition : TypeDefinition) : TypeGrowth :=
  ⟨definition.name, [], [], definition.interfaces, definition.members⟩

/-- The types that a document extends or defines. -/
inductive Schema.Grows (base : Schema) (definitions : List Definition) : TypeGrowth → Prop where
  | extended {name : Name} {object : Node ObjectLikeType}
      (found : base.types.get? name = some (.object object))
      (own : object.value.name.text = name.text) :
      base.Grows definitions (object.growth (Definition.clausesFor definitions name))
  | added {definition : TypeDefinition} (member : .type definition ∈ definitions) :
      base.Grows definitions definition.growth

/-- The places of a document that refer to types. Extensions refer to them for the type that they
extend. -/
inductive Schema.Refers (base : Schema) (definitions : List Definition) : Reference → Prop where
  | extension {clause : Node ObjectExtension} {object : Node ObjectLikeType}
      {reference : Reference} (member : .objectExtension clause ∈ definitions)
      (found : base.types.get? clause.value.name = some (.object object))
      (own : object.value.name.text = clause.value.name.text)
      (listed : reference ∈ clause.clauseReferences object.value.name) :
      base.Refers definitions reference
  | type {definition : TypeDefinition} {reference : Reference}
      (member : .type definition ∈ definitions) (listed : reference ∈ definition.references) :
      base.Refers definitions reference
  | directive {definition : Node DirectiveDefinition} {reference : Reference}
      (member : .directive definition ∈ definitions)
      (listed : reference ∈ definition.directiveReferences) : base.Refers definitions reference

/-- The name of the type that an extension is for, whatever its word. -/
def Definition.target? : Definition → Option Name
  | .objectExtension extension => some extension.value.name
  | .otherExtension extension => some extension.value.name
  | .directive _ | .type _ | .unrelated _ => none

/-! ## What rejections say -/

/-- **What a rejection says of a schema and the definitions of a document is so.** -/
def Rejection.IsGenuine (base : Schema) (definitions : List Definition) : Rejection → Prop
  -- A definition has the name of a type of the schema, or else of an earlier definition.
  | .typeAlreadyExists name location previous =>
      ∃ before definition after, definitions = before ++ .type definition :: after ∧
        definition.name = name ∧ definition.location = location ∧
        ((∃ type, base.types.get? name = some type ∧ type.location = previous) ∨
          base.types.get? name = none ∧ ∃ earlier ∈ Definition.typesAmong before,
            earlier.name.text = name.text ∧ earlier.location = previous)
  -- An extension is for a type that the schema lacks.
  | .unknownTargetType name location =>
      base.types.get? name = none ∧ ∃ definition ∈ definitions,
        definition.target? = some name ∧ definition.location = location
  -- An extension is for a type of another kind, or has another word than the type asks for.
  | .invalidExtensionTarget name location found =>
      ∃ type, base.types.get? name = some type ∧ ∃ definition ∈ definitions,
        definition.target? = some name ∧ definition.location = location ∧
        (type.kind ≠ .object ∧ found = .typeOfKind type.kind ∨
          type.kind = .object ∧ ∃ extension, definition = .otherExtension extension ∧
            found = .otherKeyword extension.value.keyword)
  -- Among the members of a type, those that it had first, one has the name of an earlier one.
  | .duplicateField type field location previous =>
      ∃ growth, base.Grows definitions growth ∧ growth.type = type ∧
        ∃ before after, growth.newMembers = before ++ ⟨field, location⟩ :: after ∧
          ∃ earlier ∈ growth.members ++ before,
            earlier.name.text = field.text ∧ earlier.location = previous
  -- Among the interfaces of a type, those that it had first, one is there twice.
  | .duplicateInterface type interface location =>
      ∃ growth, base.Grows definitions growth ∧ growth.type = type ∧
        ∃ before after, growth.newInterfaces = before ++ ⟨interface, location⟩ :: after ∧
          ∃ earlier ∈ growth.interfaces ++ before.map (·.name), earlier.text = interface.text
  -- A place refers to a type that neither the schema has nor the document defines.
  | .unknownType name site location =>
      (∃ expected, base.Refers definitions ⟨name, location, expected, site⟩) ∧
        base.types.get? name = none ∧
        ∀ definition ∈ Definition.typesAmong definitions, definition.name.text ≠ name.text
  -- A place refers to a type of a kind that cannot stand there.
  | .unexpectedKind name site location found expected =>
      base.Refers definitions ⟨name, location, expected, site⟩ ∧
        base.kindWith? definitions name = some found ∧ expected.accepts found = false
  -- A definition has the name of a directive of the schema or of an earlier definition.
  | .directiveRedefinition name location previous =>
      ∃ before definition after, definitions = before ++ .directive definition :: after ∧
        definition.value.name = name ∧ definition.location = location ∧
        ((∃ directive, base.directives.get? name = some directive ∧
            directive.location = previous) ∨
          ∃ earlier ∈ Definition.directivesAmong before,
            earlier.value.name.text = name.text ∧ earlier.location = previous)

/-! ## Rejections that names tell -/

/-- Whether a rejection can be told from names, before anything is built. -/
def Rejection.isOfNames : Rejection → Bool
  | typeAlreadyExists .. | unknownTargetType .. | invalidExtensionTarget .. => true
  | duplicateField .. | duplicateInterface .. | unknownType .. | directiveRedefinition ..
  | unexpectedKind .. => false

/-- A rejection that names tell is about the first definition that breaks the rules for names. With
any other rejection, no definition breaks them. -/
def Rejection.ComesFirst (base : Schema) (definitions : List Definition) (rejection : Rejection) :
    Prop :=
  if rejection.isOfNames then
    ∃ before definition after, definitions = before ++ definition :: after ∧
      base.AdmitsNames before ∧ ¬ base.AdmitsNames (before ++ [definition]) ∧
      definition.name? = some rejection.name ∧ definition.location = rejection.location
  else base.AdmitsNames definitions

section Planning

variable {base : Schema} {before definitions : List Definition} {plan : ExtensionPlan}
  {rejection : Rejection}

theorem ExtensionPlan.IsFor.admitsNames (isFor : plan.IsFor base definitions) :
    base.AdmitsNames definitions where
  keywords := isFor.keywords
  targets := by
    intro clause member
    have listed : clause ∈ Definition.clausesFor definitions clause.value.name :=
      Definition.mem_clausesFor_iff.2 ⟨member, BEq.rfl⟩
    obtain ⟨type, found, _⟩ := isFor.extended (List.ne_nil_of_mem listed)
    exact ⟨type, found⟩
  types := isFor.fresh

/-- Extensions are rejected for what they are meant to extend. -/
theorem ExtensionPlan.isGenuine_of_target {definition : Definition} {name : Name}
    (member : definition ∈ definitions) (targets : definition.target? = some name)
    (named : definition.name? = some name)
    (failed : target base name definition.location = .error rejection) :
    rejection.IsGenuine base definitions ∧ rejection.isOfNames = true ∧
      definition.name? = some rejection.name ∧ definition.location = rejection.location := by
  unfold target at failed
  split at failed
  · rename_i absent
    cases failed
    exact ⟨⟨absent, definition, member, targets, rfl⟩, rfl, named, rfl⟩
  · cases failed
  · rename_i type other found
    cases failed
    refine ⟨⟨type, found, definition, member, targets, rfl, .inl ⟨?_, rfl⟩⟩, rfl, named, rfl⟩
    intro object
    cases type <;> cases object
    exact other _ rfl

/-- A new type is rejected for a type that has its name already. -/
theorem ExtensionPlan.IsFor.isGenuine_of_addType (isFor : plan.IsFor base before)
    {definition : TypeDefinition} {after : List Definition}
    (split : definitions = before ++ .type definition :: after)
    (failed : plan.addType base definition = .error rejection) :
    rejection.IsGenuine base definitions ∧ rejection.isOfNames = true ∧
      some definition.name = some rejection.name ∧ definition.location = rejection.location := by
  simp only [ExtensionPlan.addType] at failed
  split at failed
  · rename_i previous found
    cases failed
    exact ⟨⟨before, definition, after, split, rfl, rfl, .inl ⟨previous, found, rfl⟩⟩, rfl, rfl, rfl⟩
  · rename_i previous absent planned
    cases failed
    rw [isFor.get?_newTypes] at planned
    have same : previous.name.text = definition.name.text :=
      Name.beq_iff_text_eq.1 (by simpa using List.find?_some planned)
    exact ⟨⟨before, definition, after, split, rfl, rfl,
      .inr ⟨absent, previous, List.mem_of_find?_eq_some planned, same, rfl⟩⟩, rfl, rfl, rfl⟩
  · cases failed

/-- A definition that cannot be planned is rejected for what is wrong with it. -/
theorem ExtensionPlan.IsFor.isGenuine_of_add (isFor : plan.IsFor base before)
    {definition : Definition} {after : List Definition}
    (split : definitions = before ++ definition :: after)
    (failed : plan.add base definition = .error rejection) :
    rejection.IsGenuine base definitions ∧ rejection.isOfNames = true ∧
      definition.name? = some rejection.name ∧ definition.location = rejection.location := by
  have member : definition ∈ definitions := by simp [split]
  cases definition with
  | objectExtension extension =>
      simp only [ExtensionPlan.add, ExtensionPlan.addExtension] at failed
      cases aimed : target base extension.value.name extension.location with
      | ok type =>
          rw [aimed] at failed
          cases failed
      | error early =>
          rw [aimed] at failed
          cases failed
          exact isGenuine_of_target member rfl rfl aimed
  | otherExtension extension =>
      simp only [ExtensionPlan.add, rejectExtension] at failed
      cases aimed : target base extension.value.name extension.location with
      | ok type =>
          rw [aimed] at failed
          cases failed
          exact ⟨⟨_, target_eq_ok aimed, _, member, rfl, rfl, .inr ⟨rfl, extension, rfl, rfl⟩⟩,
            rfl, rfl, rfl⟩
      | error early =>
          rw [aimed] at failed
          cases failed
          exact isGenuine_of_target member rfl rfl aimed
  | type definition => exact isFor.isGenuine_of_addType split failed
  | directive definition => cases failed
  | unrelated definition => cases failed

/-- **Planning rejects a document for the first definition that breaks the rules for names.** -/
theorem ExtensionPlan.isGenuine_of_ofDefinitions
    (failed : ofDefinitions base definitions = .error rejection) :
    rejection.IsGenuine base definitions ∧ rejection.ComesFirst base definitions := by
  obtain ⟨before, definition, after, plan, split, planned, here⟩ := exists_add_error failed
  have isFor := isFor_of_ofDefinitions planned
  obtain ⟨genuine, ofNames, name, location⟩ := isFor.isGenuine_of_add split here
  refine ⟨genuine, ?_⟩
  rw [Rejection.ComesFirst, if_pos ofNames]
  exact ⟨before, definition, after, split, isFor.admitsNames, isFor.not_admitsNames here [],
    name, location⟩

end Planning

/-! ## Rejections while building -/

section Building

variable {base : Schema} {definitions : List Definition} {rejection : Rejection}

/-- Repeated members are named together with the type that has them. -/
theorem RepeatsEarlier.isGenuine {growth : TypeGrowth} (grows : base.Grows definitions growth)
    (repeats : RepeatsMember growth.type growth.members growth.newMembers rejection) :
    rejection.IsGenuine base definitions ∧ rejection.isOfNames = false := by
  obtain ⟨before, mention, after, previous, split, member, same, rfl⟩ := repeats
  exact ⟨⟨growth, grows, rfl, before, after, split, previous, member, same, rfl⟩, rfl⟩

theorem RepeatsInterface.isGenuine {growth : TypeGrowth} (grows : base.Grows definitions growth)
    (repeats : RepeatsInterface growth.type growth.interfaces growth.newInterfaces rejection) :
    rejection.IsGenuine base definitions ∧ rejection.isOfNames = false := by
  obtain ⟨before, mention, after, split, member, rfl⟩ := repeats
  obtain ⟨earlier, listed, same⟩ := List.mem_map.1 member
  exact ⟨⟨growth, grows, rfl, before, after, split, earlier, listed, same⟩, rfl⟩

/-- A reference that is not met is named with what is wrong with it. -/
theorem LeavesUnmet.isGenuine {references : List Reference}
    (refers : ∀ reference ∈ references, base.Refers definitions reference)
    (unmet : LeavesUnmet (base.kindWith? definitions) references rejection) :
    rejection.IsGenuine base definitions ∧ rejection.isOfNames = false := by
  obtain ⟨reference, member, wrong⟩ := unmet
  unfold Reference.rejection? at wrong
  split at wrong
  · rename_i unknown
    cases wrong
    simp only [Schema.kindWith?, Option.or_eq_none_iff, Option.map_eq_none_iff] at unknown
    obtain ⟨absent, undefined⟩ := unknown
    refine ⟨⟨⟨_, refers _ member⟩, absent, fun definition listed same => ?_⟩, rfl⟩
    exact List.find?_eq_none.1 undefined definition listed (Name.beq_iff_text_eq.2 same)
  · rename_i found known
    split at wrong
    · cases wrong
    · rename_i refused
      cases wrong
      exact ⟨⟨refers _ member, known, by simpa using refused⟩, rfl⟩

/-- A repeated directive is named with the earlier one. -/
theorem RepeatsEarlier.isGenuine_directive
    (repeats : RepeatsDirective (memberMentions base.directives.entries)
      ((Definition.directivesAmong definitions).map fun definition =>
        ⟨definition.value.name, definition.location⟩) rejection) :
    rejection.IsGenuine base definitions ∧ rejection.isOfNames = false := by
  obtain ⟨before, mention, after, previous, split, member, same, rfl⟩ := repeats
  obtain ⟨first, rest, among, rfl, mentions⟩ := List.map_eq_append_iff.1 split
  obtain ⟨definition, last, rfl, rfl, rfl⟩ := List.map_eq_cons_iff.1 mentions
  obtain ⟨earlier, others, rfl, rfl, found⟩ := List.filterMap_eq_append_iff.1 among
  obtain ⟨skipped, kept, later, rfl, _, here, rfl⟩ := List.filterMap_eq_cons_iff.1 found
  cases kept <;> cases here
  refine ⟨⟨earlier ++ skipped, definition, later, by simp, rfl, rfl, ?_⟩, rfl⟩
  rcases List.mem_append.1 member with member | member
  · obtain ⟨⟨key, directive⟩, stored, rfl⟩ := List.mem_map.1 member
    refine .inl ⟨directive, ?_, rfl⟩
    exact (OrderedMap.get?_eq_some_iff _ _ _).2 ⟨key, stored, Name.beq_iff_text_eq.2 same⟩
  · obtain ⟨directive, listed, rfl⟩ := List.mem_map.1 member
    refine .inr ⟨directive, ?_, same, rfl⟩
    rw [Definition.directivesAmong_append]
    exact List.mem_append_left _ listed

/-- **A build is rejected for what is wrong with the document**, if its names are in order. -/
theorem BuildContext.IsRejected.isGenuine {context : BuildContext}
    (own : context.base.HasOwnNames) (isFor : context.plan.IsFor context.base definitions)
    (rejected : context.IsRejected rejection) :
    rejection.IsGenuine context.base definitions ∧ rejection.isOfNames = false := by
  cases rejected with
  | extended planned reason =>
      rw [isFor.declaredKind?_eq] at reason
      obtain ⟨found, clauses, _⟩ := isFor.extended_eq planned
      have same := own _ _ found
      have grows : context.base.Grows definitions _ := .extended found same
      rw [← clauses] at grows
      cases reason with
      | interface repeats => exact repeats.isGenuine grows
      | field repeats => exact RepeatsEarlier.isGenuine grows repeats
      | reference member unmet =>
          refine unmet.isGenuine fun reference listed => ?_
          rw [clauses, Definition.mem_clausesFor_iff, Definition.mem_clausesAmong_iff] at member
          rw [← OrderedMap.get?_congr _ member.2] at found
          exact .extension member.1 found (own _ _ found) listed
  | added planned reason =>
      rw [isFor.declaredKind?_eq] at reason
      rw [isFor.get?_newTypes] at planned
      have member := Definition.mem_typesAmong_iff.1 (List.mem_of_find?_eq_some planned)
      have grows : context.base.Grows definitions _ := .added member
      cases reason with
      | interface repeats => exact repeats.isGenuine grows
      | member repeats => exact RepeatsEarlier.isGenuine grows repeats
      | reference unmet => exact unmet.isGenuine fun reference listed => .type member listed
  | directive repeats =>
      rw [isFor.newDirectives] at repeats
      exact RepeatsEarlier.isGenuine_directive repeats
  | directiveReference member unmet =>
      rw [isFor.declaredKind?_eq] at unmet
      rw [isFor.newDirectives, Definition.mem_directivesAmong_iff] at member
      exact unmet.isGenuine fun reference listed => .directive member listed

end Building

/-! ## The place of a rejection -/

/-- Whether a place is in a list of names. -/
def ReferenceSite.isInList : ReferenceSite → Bool
  | implementedInterface _ | unionMember _ => true
  | field .. | argument .. | inputField .. | directiveArgument .. => false

/-- Whether a rejection is about a name in a list of names. -/
def Rejection.isInList : Rejection → Bool
  | duplicateInterface .. => true
  | unknownType _ site _ | unexpectedKind _ site _ _ _ => site.isInList
  | typeAlreadyExists .. | invalidExtensionTarget .. | unknownTargetType .. | duplicateField ..
  | directiveRedefinition .. => false

/-- A rejection shows a place of a file. If it is about a name in a list of names, the place is that
of the name. -/
structure Rejection.IsPlacedIn (file : FileId) (rejection : Rejection) : Prop where
  inFile : LiesIn file rejection.location
  atName : rejection.isInList = true → rejection.location = rejection.name.location

/-- A reference lies in a file. If it is in a list of names, it lies where its name does. -/
structure Reference.IsPlacedIn (file : FileId) (reference : Reference) : Prop where
  inFile : LiesIn file reference.location
  atName : reference.site.isInList = true → reference.location = reference.name.location

/-- A name of a list is shown where it is. -/
structure Mention.IsPlacedIn (file : FileId) (mention : Mention) : Prop where
  inFile : LiesIn file mention.location
  atName : mention.location = mention.name.location

section Places

variable {file : FileId}

theorem NamesLieIn.interfaceMentions {interfaces : List Name} (lie : NamesLieIn file interfaces)
    (location : Option Location) :
    ∀ mention ∈ interfaceMentions location interfaces, mention.IsPlacedIn file := by
  intro mention member
  obtain ⟨interface, listed, rfl⟩ := List.mem_map.1 member
  have lies := lie interface listed
  exact ⟨by rw [lies.or_eq]; exact lies, lies.or_eq _⟩

theorem NamesLieIn.interfaceReferences {interfaces : List Name} (lie : NamesLieIn file interfaces)
    (type : Name) (location : Option Location) :
    ∀ reference ∈ interfaceReferences type location interfaces, reference.IsPlacedIn file := by
  intro reference member
  obtain ⟨interface, listed, rfl⟩ := List.mem_map.1 member
  have lies := lie interface listed
  exact ⟨by rw [lies.or_eq]; exact lies, fun _ => lies.or_eq _⟩

theorem NamesLieIn.unionReferences {definition : Node UnionDefinition}
    (lie : NamesLieIn file definition.value.members) :
    ∀ reference ∈ definition.unionReferences, reference.IsPlacedIn file := by
  intro reference member
  obtain ⟨union, listed, rfl⟩ := List.mem_map.1 member
  have lies := lie union listed
  exact ⟨by rw [lies.or_eq]; exact lies, fun _ => lies.or_eq _⟩

/-- A reference in the type of an argument or input field lies where the type does. -/
theorem isPlacedIn_inputReference {site : Name → ReferenceSite}
    (notInList : ∀ name, (site name).isInList = false)
    {definitions : List (Node InputValueDefinition)}
    (lie : ∀ definition ∈ definitions, definition.InputLiesIn file) :
    ∀ reference ∈ definitions.map (Node.inputReference site), reference.IsPlacedIn file := by
  intro reference member
  obtain ⟨definition, listed, rfl⟩ := List.mem_map.1 member
  refine ⟨(lie definition listed).type, fun inList => ?_⟩
  rw [Node.inputReference, notInList] at inList
  cases inList

theorem isPlacedIn_fieldReferences {fields : List (Node FieldDefinition)}
    (lie : ∀ field ∈ fields, field.FieldLiesIn file) (type : Name) :
    ∀ reference ∈ fields.flatMap (Node.fieldReferences type), reference.IsPlacedIn file := by
  intro reference member
  obtain ⟨field, listed, member⟩ := List.mem_flatMap.1 member
  rw [Node.fieldReferences, List.mem_cons] at member
  rcases member with rfl | member
  · exact ⟨(lie field listed).type, fun inList => by cases inList⟩
  · exact isPlacedIn_inputReference (fun _ => rfl) (lie field listed).arguments reference member

theorem liesIn_fieldMentions {fields : List (Node FieldDefinition)}
    (lie : ∀ field ∈ fields, field.FieldLiesIn file) :
    ∀ mention ∈ fieldMentions fields, LiesIn file mention.location := by
  intro mention member
  obtain ⟨field, listed, rfl⟩ := List.mem_map.1 member
  exact (lie field listed).itself

theorem TypeDefinition.PartsLieIn.interfaces {definition : TypeDefinition}
    (parts : definition.PartsLieIn file) :
    ∀ mention ∈ definition.interfaces, mention.IsPlacedIn file := by
  cases definition with
  | object definition | interface definition => exact parts.1.interfaceMentions _
  | scalar definition | union definition | enum definition | inputObject definition => nofun

theorem TypeDefinition.PartsLieIn.members {definition : TypeDefinition}
    (parts : definition.PartsLieIn file) :
    ∀ mention ∈ definition.members, LiesIn file mention.location := by
  cases definition with
  | object definition | interface definition => exact liesIn_fieldMentions parts.2
  | enum definition =>
      intro mention member
      obtain ⟨value, listed, rfl⟩ := List.mem_map.1 member
      exact parts value listed
  | inputObject definition =>
      intro mention member
      obtain ⟨field, listed, rfl⟩ := List.mem_map.1 member
      exact (parts field listed).itself
  | scalar definition | union definition => nofun

theorem TypeDefinition.PartsLieIn.references {definition : TypeDefinition}
    (parts : definition.PartsLieIn file) :
    ∀ reference ∈ definition.references, reference.IsPlacedIn file := by
  cases definition with
  | object definition | interface definition =>
      intro reference member
      rcases List.mem_append.1 member with member | member
      · exact parts.1.interfaceReferences _ _ reference member
      · exact isPlacedIn_fieldReferences parts.2 _ reference member
  | union definition => exact NamesLieIn.unionReferences parts
  | inputObject definition =>
      exact isPlacedIn_inputReference (fun _ => rfl) parts
  | scalar definition | enum definition =>
      exact fun reference member => absurd member List.not_mem_nil

variable {base : Schema} {definitions : List Definition}
  (lie : ∀ definition ∈ definitions, definition.LiesInFile file)
include lie

theorem Schema.Refers.isPlacedIn {reference : Reference}
    (refers : base.Refers definitions reference) : reference.IsPlacedIn file := by
  cases refers with
  | extension member _ _ listed =>
      obtain ⟨interfaces, fields⟩ := (lie _ member).parts
      rcases List.mem_append.1 listed with listed | listed
      · exact interfaces.interfaceReferences _ _ reference listed
      · exact isPlacedIn_fieldReferences fields _ reference listed
  | type member listed =>
      exact TypeDefinition.PartsLieIn.references (lie _ member).parts reference listed
  | directive member listed =>
      exact isPlacedIn_inputReference (fun _ => rfl) (lie _ member).parts reference listed

theorem Schema.Grows.isPlacedIn {growth : TypeGrowth} (grows : base.Grows definitions growth) :
    (∀ mention ∈ growth.newInterfaces, mention.IsPlacedIn file) ∧
      ∀ mention ∈ growth.newMembers, LiesIn file mention.location := by
  cases grows with
  | added member =>
      have parts : TypeDefinition.PartsLieIn file _ := (lie _ member).parts
      exact ⟨parts.interfaces, parts.members⟩
  | extended found _ =>
      constructor
      · intro mention member
        obtain ⟨clause, listed, member⟩ := List.mem_flatMap.1 member
        rw [Definition.mem_clausesFor_iff, Definition.mem_clausesAmong_iff] at listed
        exact (lie _ listed.1).parts.1.interfaceMentions _ mention member
      · intro mention member
        obtain ⟨clause, listed, member⟩ := List.mem_flatMap.1 member
        rw [Definition.mem_clausesFor_iff, Definition.mem_clausesAmong_iff] at listed
        exact liesIn_fieldMentions (lie _ listed.1).parts.2 mention member

/-- **What is genuine in a document that lies in a file has a place in that file.** -/
theorem Rejection.IsGenuine.isPlacedIn {rejection : Rejection}
    (genuine : rejection.IsGenuine base definitions) : rejection.IsPlacedIn file := by
  cases rejection with
  | typeAlreadyExists name location previous =>
      obtain ⟨before, definition, after, rfl, _, rfl, _⟩ := genuine
      exact ⟨(lie (.type definition) (by simp)).itself, nofun⟩
  | unknownTargetType name location =>
      obtain ⟨_, definition, member, _, rfl⟩ := genuine
      exact ⟨(lie definition member).itself, nofun⟩
  | invalidExtensionTarget name location found =>
      obtain ⟨_, _, definition, member, _, rfl, _⟩ := genuine
      exact ⟨(lie definition member).itself, nofun⟩
  | duplicateField type field location previous =>
      obtain ⟨growth, grows, _, before, after, split, _⟩ := genuine
      exact ⟨(grows.isPlacedIn lie).2 ⟨field, location⟩ (by simp [split]), nofun⟩
  | duplicateInterface type interface location =>
      obtain ⟨growth, grows, _, before, after, split, _⟩ := genuine
      have placed := (grows.isPlacedIn lie).1 ⟨interface, location⟩ (by simp [split])
      exact ⟨placed.inFile, fun _ => placed.atName⟩
  | unknownType name site location =>
      obtain ⟨⟨expected, refers⟩, _⟩ := genuine
      exact ⟨(refers.isPlacedIn lie).inFile, (refers.isPlacedIn lie).atName⟩
  | directiveRedefinition name location previous =>
      obtain ⟨before, definition, after, rfl, _, rfl, _⟩ := genuine
      exact ⟨(lie (.directive definition) (by simp)).itself, nofun⟩
  | unexpectedKind name site location found expected =>
      obtain ⟨refers, _⟩ := genuine
      exact ⟨(refers.isPlacedIn lie).inFile, (refers.isPlacedIn lie).atName⟩

end Places

/-! ## Rejected documents -/

/-- A rejection is genuine and about what comes first. -/
theorem Schema.rejection_of_extend {base : Schema} (reachable : base.Reachable)
    {run : ExtensionRun} {document : Document} {rejection : Rejection}
    (fails : (base.extend run document).result = .error rejection) :
    rejection.IsGenuine base document.definitions ∧
      rejection.ComesFirst base document.definitions := by
  unfold Schema.extend at fails
  cases planned : ExtensionPlan.ofDefinitions base document.definitions with
  | error early =>
      rw [planned] at fails
      cases fails
      exact ExtensionPlan.isGenuine_of_ofDefinitions planned
  | ok plan =>
      have isFor := ExtensionPlan.isFor_of_ofDefinitions planned
      have carried := Schema.carryOut_spec run isFor
      by_cases empty : plan.isEmpty = true
      · simp only [planned, empty] at fails
        cases fails
      · simp only [planned, empty] at fails
        cases result : (base.carryOut run document plan).result with
        | ok schema =>
            simp [result] at fails
            cases fails
        | error late =>
            rw [result] at carried fails
            cases fails
            obtain ⟨genuine, later⟩ :=
              BuildContext.IsRejected.isGenuine reachable.hasOwnNames isFor carried
            refine ⟨genuine, ?_⟩
            rw [Rejection.ComesFirst, if_neg (by simp [later])]
            exact isFor.admitsNames

/-- **A rejection of a document that was read is genuine, is about what comes first, and shows its
place.** -/
theorem Schema.isGenuine_of_extend {base : Schema} (reachable : base.Reachable)
    {run : ExtensionRun} {limits : ReadingLimits} {file : FileId} {source : SourceFile}
    {document : Document} (read : (Document.parse limits file source).document = document)
    {rejection : Rejection} (fails : (base.extend run document).result = .error rejection) :
    rejection.IsGenuine base document.definitions ∧
      rejection.ComesFirst base document.definitions ∧ rejection.IsPlacedIn file := by
  have lie : ∀ definition ∈ document.definitions, definition.LiesInFile file :=
    read ▸ Document.definitions_lieIn limits file source
  obtain ⟨genuine, first⟩ := Schema.rejection_of_extend reachable fails
  exact ⟨genuine, first, genuine.isPlacedIn lie⟩

/-- A document that a schema does not admit is rejected. -/
theorem Schema.exists_rejection_of_not_admits (run : ExtensionRun) {base : Schema}
    {document : Document} (broken : ¬ base.Admits document.definitions) :
    ∃ rejection, (base.extend run document).result = .error rejection := by
  have spec := Schema.extend_spec run base document
  cases result : (base.extend run document).result with
  | ok extended =>
      rw [result] at spec
      exact absurd spec.1 broken
  | error rejection => exact ⟨rejection, rfl⟩

/-- What is read from a text that defines one type twice. -/
def repeatedDocument : Document :=
  (Document.parse {} (.document 0) ⟨"repeated.graphql", "scalar Weight scalar Weight"⟩).document

theorem Schema.isGenuine_of_extend_repeated :
    (Definition.typesAmong repeatedDocument.definitions).map (·.name.text) =
      ["Weight", "Weight"] ∧
    ∃ rejection, (Schema.builtIn.extend ⟨1, .none⟩ repeatedDocument).result = .error rejection ∧
      rejection.IsGenuine Schema.builtIn repeatedDocument.definitions ∧
      rejection.IsPlacedIn (.document 0) := by
  have texts : (Definition.typesAmong repeatedDocument.definitions).map (·.name.text) =
      ["Weight", "Weight"] := by decide +kernel
  refine ⟨texts, ?_⟩
  have broken : ¬ Schema.builtIn.Admits repeatedDocument.definitions := by
    intro admits
    have distinct := admits.types.distinct
    rw [List.map_map, Function.comp_def, texts] at distinct
    exact absurd distinct (by decide)
  obtain ⟨rejection, fails⟩ := Schema.exists_rejection_of_not_admits ⟨1, .none⟩ broken
  obtain ⟨genuine, _, placed⟩ := Schema.isGenuine_of_extend .builtIn rfl fails
  exact ⟨rejection, fails, genuine, placed⟩

end SchemaGraft
