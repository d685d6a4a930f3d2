import SchemaGraft.Proofs.Extension.Building

/-!
# What adding members does

The lemmas of this file follow the steps of building, from a single reference up to lists of
interfaces, members and fields. Each says what a step gives if it succeeds and for which reasons it
is rejected, whoever answers the requests for other types.

Lists are gone through one by one, and what holds after a part of a list is always the same: the
part was added at the end, its names were new (`AddsMembers`), and its references were met.
-/

set_option autoImplicit false

namespace SchemaGraft

namespace Build

variable {context : BuildContext} {fails : Rejection → Prop} {resolve : Resolve}

/-! ## References -/

/-- Checks references one after the other. -/
def referenceAll (resolve : Resolve) : List Reference → Build Unit
  | [] => pure ()
  | reference :: rest => do
    Build.reference resolve reference.name reference.location reference.expected reference.site
    referenceAll resolve rest

theorem referenceArguments_eq (resolve : Resolve) (type field : Name)
    (arguments : List (Node InputValueDefinition)) :
    referenceArguments resolve type field arguments =
      referenceAll resolve (arguments.map (Node.inputReference (.argument type field))) := by
  induction arguments with
  | nil => rfl
  | cons argument rest ih =>
      rw [referenceArguments, ih]
      rfl

theorem referenceDirectiveArguments_eq (resolve : Resolve) (directive : Name)
    (arguments : List (Node InputValueDefinition)) :
    referenceDirectiveArguments resolve directive arguments =
      referenceAll resolve
        (arguments.map (Node.inputReference (.directiveArgument directive))) := by
  induction arguments with
  | nil => rfl
  | cons argument rest ih =>
      rw [referenceDirectiveArguments, ih]
      rfl

section References

variable (answers : Answers context fails resolve)
include answers

theorem meets_reference (reference : Reference)
    (unmet : ∀ rejection, reference.rejection? (declaredKind? context) = some rejection →
      fails rejection) :
    Meets context
      (Build.reference resolve reference.name reference.location reference.expected reference.site)
      (fun _ => reference.IsMet (declaredKind? context)) fails := by
  refine (answers reference.name).bind fun kind answered => ?_
  unfold Reference.rejection? at unmet
  unfold Reference.IsMet FindsKind
  rw [← answered] at unmet ⊢
  cases kind with
  | none => exact .throw (unmet _ rfl)
  | some found =>
      by_cases accepted : reference.expected.accepts found = true
      · simp only [accepted, if_true]
        exact .pure ⟨found, rfl, accepted⟩
      · simp only [accepted]
        exact .throw (unmet _ (by simp [accepted]))

theorem meets_referenceAll (references : List Reference)
    (unmet : ∀ rejection, LeavesUnmet (declaredKind? context) references rejection →
      fails rejection) :
    Meets context (referenceAll resolve references)
      (fun _ => ∀ reference ∈ references, reference.IsMet (declaredKind? context)) fails := by
  induction references with
  | nil => exact .pure (by simp)
  | cons reference rest ih =>
      have head := meets_reference answers reference
        fun rejection wrong => unmet rejection ⟨reference, by simp, wrong⟩
      have tail := ih (by
        rintro rejection ⟨other, member, wrong⟩
        exact unmet rejection ⟨other, by simp [member], wrong⟩)
      refine head.bind fun _ met => tail.mono fun _ all_met => ?_
      rw [List.forall_mem_cons]
      exact ⟨met, all_met⟩

end References

/-! ## Interfaces and union members -/

section Interfaces

variable (answers : Answers context fails resolve)
include answers

theorem meets_addInterface {type : Name} {clause : Option Location} {interfaces : NameSet}
    {interface : Name}
    (repeats : interfaces.contains interface = true →
      fails (.duplicateInterface type interface (interface.location.or clause)))
    (unmet : ∀ rejection, LeavesUnmet (declaredKind? context)
      (interfaceReferences type clause [interface]) rejection → fails rejection) :
    Meets context (addInterface resolve type clause interfaces interface)
      (fun added => added = interfaces.add interface ∧ interfaces.contains interface = false ∧
        ∀ reference ∈ interfaceReferences type clause [interface],
          reference.IsMet (declaredKind? context)) fails := by
  unfold addInterface
  by_cases present : interfaces.contains interface = true
  · simp only [present, if_true]
    have rejected : Meets context (throw _ : Build PUnit) (fun _ => False) fails :=
      .throw (repeats present)
    exact rejected.bind fun _ never => never.elim
  · simp only [present]
    have reference := meets_reference answers
      ⟨interface, interface.location.or clause, .interface, .implementedInterface type⟩
      fun rejection wrong => unmet rejection ⟨_, List.mem_singleton_self _, wrong⟩
    refine reference.bind fun _ met => .pure ⟨rfl, by simp, ?_⟩
    simpa [interfaceReferences] using met

theorem meets_addInterfaces {type : Name} {clause : Option Location} {interfaces : NameSet}
    {added : List Name}
    (repeats : ∀ rejection, RepeatsInterface type interfaces.keys (interfaceMentions clause added)
      rejection → fails rejection)
    (unmet : ∀ rejection, LeavesUnmet (declaredKind? context)
      (interfaceReferences type clause added) rejection → fails rejection) :
    Meets context (addInterfaces resolve type clause interfaces added)
      (fun result => result.keys = interfaces.keys ++ added ∧ AreFresh interfaces.keys added ∧
        ∀ reference ∈ interfaceReferences type clause added,
          reference.IsMet (declaredKind? context)) fails := by
  refine Meets.foldlM (fun before (result : NameSet) => result.keys = interfaces.keys ++ before ∧
    AreFresh interfaces.keys before ∧ ∀ reference ∈ interfaceReferences type clause before,
      reference.IsMet (declaredKind? context))
    ⟨by simp, areFresh_nil _, by simp [interfaceReferences]⟩ ?_
  rintro before interface after result rfl ⟨keys, fresh, met⟩
  refine (meets_addInterface answers ?_ ?_).mono ?_
  · intro present
    refine repeats _ ⟨interfaceMentions clause before, ⟨interface, interface.location.or clause⟩,
      interfaceMentions clause after, by simp [interfaceMentions], ?_, rfl⟩
    rw [NameMap.contains_iff, NameMap.texts, keys] at present
    rwa [map_name_interfaceMentions]
  · rintro rejection ⟨reference, member, wrong⟩
    exact unmet rejection ⟨reference, by simp_all [interfaceReferences], wrong⟩
  · rintro _ ⟨rfl, absent, here⟩
    refine ⟨?_, ?_, ?_⟩
    · rw [NameSet.add, OrderedMap.keys_insert_of_absent () absent, keys, List.append_assoc]
    · refine areFresh_append_iff.2 ⟨fresh, ?_⟩
      rw [← keys]
      exact areFresh_keys_singleton_iff.2 absent
    · unfold interfaceReferences at met here ⊢
      rw [List.map_append, List.forall_mem_append]
      exact ⟨met, here⟩

/-- The references of a union type to members of it. -/
def memberReferences (type : Name) (location : Option Location) (members : List Name) :
    List Reference :=
  members.map fun member => ⟨member, member.location.or location, .object, .unionMember type⟩

theorem meets_addMember {type : Name} {location : Option Location} {members : NameSet}
    {member : Name}
    (unmet : ∀ rejection, LeavesUnmet (declaredKind? context)
      (memberReferences type location [member]) rejection → fails rejection) :
    Meets context (addMember resolve type location members member)
      (fun added => added = members.add member ∧
        ∀ reference ∈ memberReferences type location [member],
          reference.IsMet (declaredKind? context)) fails := by
  have reference := meets_reference answers
    ⟨member, member.location.or location, .object, .unionMember type⟩
    fun rejection wrong => unmet rejection ⟨_, List.mem_singleton_self _, wrong⟩
  exact reference.bind fun _ met => .pure ⟨rfl, List.forall_mem_singleton.2 met⟩

/-- A union may list a member twice, but has it once. -/
theorem meets_addMembers {type : Name} {location : Option Location} {added : List Name}
    (unmet : ∀ rejection, LeavesUnmet (declaredKind? context)
      (memberReferences type location added) rejection → fails rejection) :
    Meets context (added.foldlM (addMember resolve type location) OrderedMap.empty)
      (fun members => members.keys = Name.distinct added ∧
        ∀ reference ∈ memberReferences type location added,
          reference.IsMet (declaredKind? context)) fails := by
  refine Meets.foldlM (fun before (members : NameSet) => members.keys = Name.distinct before ∧
    ∀ reference ∈ memberReferences type location before,
      reference.IsMet (declaredKind? context)) ⟨rfl, List.forall_mem_nil _⟩ ?_
  rintro before member after members rfl ⟨keys, met⟩
  refine (meets_addMember answers ?_).mono ?_
  · rintro rejection ⟨reference, listed, wrong⟩
    exact unmet rejection ⟨reference, by simp_all [memberReferences], wrong⟩
  · rintro _ ⟨rfl, here⟩
    refine ⟨NameSet.keys_add_of_distinct keys, ?_⟩
    unfold memberReferences at met here ⊢
    rw [List.map_append, List.forall_mem_append]
    exact ⟨met, here⟩

end Interfaces

/-! ## Fields and values -/

/-- A map has the members that were added to another one, and their names were new. -/
structure AddsMembers {α : Type} (existing : NameMap (Node α)) (added : List (Name × Node α))
    (result : NameMap (Node α)) : Prop where
  entries : result.entries = existing.entries ++ added
  fresh : AreFresh existing.keys (added.map (·.1))

theorem AddsMembers.nil {α : Type} (existing : NameMap (Node α)) :
    AddsMembers existing [] existing :=
  ⟨by simp, areFresh_nil _⟩

theorem AddsMembers.insert {α : Type} {existing members : NameMap (Node α)}
    {added : List (Name × Node α)} {name : Name} {node : Node α}
    (adds : AddsMembers existing added members) (absent : members.contains name = false) :
    AddsMembers existing (added ++ [(name, node)]) (OrderedMap.insert members name node) where
  entries := by
    rw [OrderedMap.entries_insert_of_absent node absent, adds.entries, List.append_assoc]
  fresh := by
    rw [List.map_append]
    refine areFresh_append_iff.2 ⟨adds.fresh, ?_⟩
    have keys : members.keys = existing.keys ++ added.map (·.1) := by
      simp [OrderedMap.keys, adds.entries]
    rw [← keys]
    exact areFresh_keys_singleton_iff.2 absent

theorem memberMentions_append {α : Type} (first second : List (Name × Node α)) :
    memberMentions (first ++ second) = memberMentions first ++ memberMentions second :=
  List.map_append

theorem meets_rejectDuplicate {α : Type} {type : Name} {existing members : NameMap (Node α)}
    {entries : List (Name × Node α)} (mention : Mention) (after : List Mention)
    (adds : AddsMembers existing entries members)
    (repeats : ∀ rejection, RepeatsMember type (memberMentions existing.entries)
      (memberMentions entries ++ mention :: after) rejection → fails rejection) :
    Meets context (rejectDuplicate type members mention.name mention.location)
      (fun _ => members.contains mention.name = false) fails := by
  unfold rejectDuplicate
  cases found : members.get? mention.name with
  | none => exact .pure ((OrderedMap.get?_eq_none_iff members mention.name).1 found)
  | some previous =>
      obtain ⟨stored, member, same⟩ := (OrderedMap.get?_eq_some_iff members _ _).1 found
      rw [adds.entries] at member
      refine .throw (repeats _ ⟨_, mention, after, ⟨stored, previous.location⟩, rfl, ?_,
        Name.beq_iff_text_eq.1 same, rfl⟩)
      have listed : ⟨stored, previous.location⟩ ∈
          memberMentions (existing.entries ++ entries) := List.mem_map_of_mem member
      rwa [memberMentions_append] at listed

theorem memberMentions_fieldEntries (run : ExtensionRun) (key type : Name)
    (fields : List (Node FieldDefinition)) :
    memberMentions (fieldEntries run key type fields) = fieldMentions fields := by
  simp [memberMentions, fieldEntries, fieldMentions, Function.comp_def, Node.addedField]

theorem meets_addEnumValue {type : Name} {existing members : NameMap (Node EnumValue)}
    {before : List (Node EnumValueDefinition)} {definition : Node EnumValueDefinition}
    (after : List (Node EnumValueDefinition))
    (adds : AddsMembers existing
      (before.map fun value => (value.value.name, value.addedValue context.asRun type)) members)
    (repeats : ∀ rejection, RepeatsMember type (memberMentions existing.entries)
      ((before ++ definition :: after).map fun value => ⟨value.value.name, value.location⟩)
      rejection → fails rejection) :
    Meets context (addEnumValue context type members definition)
      (AddsMembers existing ((before ++ [definition]).map fun value =>
        (value.value.name, value.addedValue context.asRun type))) fails := by
  refine (meets_rejectDuplicate ⟨definition.value.name, definition.location⟩
    (after.map fun value => ⟨value.value.name, value.location⟩) adds ?_).bind
    fun _ absent => .pure ?_
  · simpa [memberMentions, Function.comp_def, Node.addedValue] using repeats
  · rw [List.map_append]
    exact adds.insert absent

theorem meets_addEnumValues {type : Name} {existing : NameMap (Node EnumValue)}
    {added : List (Node EnumValueDefinition)}
    (repeats : ∀ rejection, RepeatsMember type (memberMentions existing.entries)
      (added.map fun value => ⟨value.value.name, value.location⟩) rejection → fails rejection) :
    Meets context (added.foldlM (addEnumValue context type) existing)
      (AddsMembers existing (added.map fun value =>
        (value.value.name, value.addedValue context.asRun type))) fails := by
  refine Meets.foldlM (fun (before : List (Node EnumValueDefinition)) =>
    AddsMembers existing (before.map fun value =>
      (value.value.name, value.addedValue context.asRun type))) (AddsMembers.nil existing) ?_
  rintro before value after values rfl adds
  exact meets_addEnumValue after adds repeats

section Members

variable (answers : Answers context fails resolve)
include answers

theorem meets_addField {key type : Name} {existing members : NameMap (Node Field)}
    {before : List (Node FieldDefinition)} {definition : Node FieldDefinition}
    (after : List (Node FieldDefinition))
    (adds : AddsMembers existing (fieldEntries context.asRun key type before) members)
    (repeats : ∀ rejection, RepeatsMember type (memberMentions existing.entries)
      (fieldMentions (before ++ definition :: after)) rejection → fails rejection)
    (unmet : ∀ rejection, LeavesUnmet (declaredKind? context) (definition.fieldReferences type)
      rejection → fails rejection) :
    Meets context (addField context resolve key type members definition)
      (fun result =>
        AddsMembers existing (fieldEntries context.asRun key type (before ++ [definition])) result ∧
        ∀ reference ∈ definition.fieldReferences type,
          reference.IsMet (declaredKind? context)) fails := by
  have new : Meets context (rejectDuplicate type members definition.value.name definition.location)
      (fun _ => members.contains definition.value.name = false) fails :=
    meets_rejectDuplicate ⟨definition.value.name, definition.location⟩ (fieldMentions after) adds
      (by simpa [memberMentions_fieldEntries, fieldMentions] using repeats)
  have result := meets_reference answers
    ⟨definition.value.type.value.innerName, definition.value.type.location, .output,
      .field type definition.value.name⟩
    fun rejection wrong => unmet rejection ⟨_, by simp [Node.fieldReferences], wrong⟩
  have arguments := meets_referenceAll answers
    (definition.value.arguments.map
      (Node.inputReference (.argument type definition.value.name)))
    (by
      rintro rejection ⟨reference, member, wrong⟩
      exact unmet rejection ⟨reference, by simp [Node.fieldReferences, member], wrong⟩)
  rw [← referenceArguments_eq] at arguments
  refine new.bind fun _ absent => result.bind fun _ met => arguments.bind fun _ all_met => .pure ?_
  refine ⟨?_, ?_⟩
  · rw [fieldEntries, List.map_append]
    exact adds.insert absent
  · rw [Node.fieldReferences, List.forall_mem_cons]
    exact ⟨met, all_met⟩

theorem meets_addFields {key type : Name} {existing : NameMap (Node Field)}
    {added : List (Node FieldDefinition)}
    (repeats : ∀ rejection, RepeatsMember type (memberMentions existing.entries)
      (fieldMentions added) rejection → fails rejection)
    (unmet : ∀ rejection, LeavesUnmet (declaredKind? context)
      (added.flatMap (Node.fieldReferences type)) rejection → fails rejection) :
    Meets context (addFields context resolve key type existing added)
      (fun result => AddsMembers existing (fieldEntries context.asRun key type added) result ∧
        ∀ reference ∈ added.flatMap (Node.fieldReferences type),
          reference.IsMet (declaredKind? context)) fails := by
  refine Meets.foldlM (fun before result =>
    AddsMembers existing (fieldEntries context.asRun key type before) result ∧
      ∀ reference ∈ before.flatMap (Node.fieldReferences type),
        reference.IsMet (declaredKind? context))
    ⟨AddsMembers.nil existing, by simp⟩ ?_
  rintro before definition after result rfl ⟨adds, met⟩
  refine (meets_addField answers after adds repeats ?_).mono ?_
  · rintro rejection ⟨reference, member, wrong⟩
    exact unmet rejection ⟨reference, by simp [member], wrong⟩
  · rintro _ ⟨adds, here⟩
    refine ⟨adds, ?_⟩
    rw [List.flatMap_append, List.forall_mem_append]
    exact ⟨met, by simpa using here⟩

theorem meets_addInputField {type : Name} {existing members : NameMap (Node InputValueDefinition)}
    {before : List (Node InputValueDefinition)} {definition : Node InputValueDefinition}
    (after : List (Node InputValueDefinition))
    (adds : AddsMembers existing (before.map fun field => (field.value.name, field)) members)
    (repeats : ∀ rejection, RepeatsMember type (memberMentions existing.entries)
      ((before ++ definition :: after).map fun field => ⟨field.value.name, field.location⟩)
      rejection → fails rejection)
    (unmet : ∀ rejection, (definition.inputReference (.inputField type)).rejection?
      (declaredKind? context) = some rejection → fails rejection) :
    Meets context (addInputField resolve type members definition)
      (fun result =>
        AddsMembers existing ((before ++ [definition]).map fun field => (field.value.name, field))
          result ∧
        (definition.inputReference (.inputField type)).IsMet (declaredKind? context)) fails := by
  have new : Meets context (rejectDuplicate type members definition.value.name definition.location)
      (fun _ => members.contains definition.value.name = false) fails :=
    meets_rejectDuplicate ⟨definition.value.name, definition.location⟩
      (after.map fun field => ⟨field.value.name, field.location⟩) adds
      (by simpa [memberMentions, Function.comp_def] using repeats)
  have reference := meets_reference answers (definition.inputReference (.inputField type)) unmet
  refine new.bind fun _ absent => reference.bind fun _ met => .pure ⟨?_, met⟩
  rw [List.map_append]
  exact adds.insert absent

theorem meets_addInputFields {type : Name} {existing : NameMap (Node InputValueDefinition)}
    {added : List (Node InputValueDefinition)}
    (repeats : ∀ rejection, RepeatsMember type (memberMentions existing.entries)
      (added.map fun field => ⟨field.value.name, field.location⟩) rejection → fails rejection)
    (unmet : ∀ rejection, LeavesUnmet (declaredKind? context)
      (added.map (Node.inputReference (.inputField type))) rejection → fails rejection) :
    Meets context (added.foldlM (addInputField resolve type) existing)
      (fun result =>
        AddsMembers existing (added.map fun field => (field.value.name, field)) result ∧
        ∀ reference ∈ added.map (Node.inputReference (.inputField type)),
          reference.IsMet (declaredKind? context)) fails := by
  refine Meets.foldlM (fun before result =>
    AddsMembers existing (before.map fun field => (field.value.name, field)) result ∧
      ∀ reference ∈ before.map (Node.inputReference (.inputField type)),
        reference.IsMet (declaredKind? context))
    ⟨AddsMembers.nil existing, List.forall_mem_nil _⟩ ?_
  rintro before field after result rfl ⟨adds, met⟩
  refine (meets_addInputField answers after adds repeats fun rejection wrong => ?_).mono ?_
  · exact unmet rejection ⟨_, List.mem_map_of_mem (by simp), wrong⟩
  · rintro _ ⟨adds, here⟩
    refine ⟨adds, ?_⟩
    rw [List.map_append, List.forall_mem_append]
    exact ⟨met, List.forall_mem_singleton.2 here⟩

end Members

end Build

end SchemaGraft
