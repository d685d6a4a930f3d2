import SchemaGraft.Proofs.Extension.Merge

/-!
# What fits and what is rejected

Whether an extended or a new type can be built depends on two things of its own: the names that it
adds must be new, and its references must be met by the kinds that names have in the end. A type
with both fits (`ExtendedObject.Fits`, `TypeDefinition.Fits`).

A type that does not fit is rejected for one of a few reasons: it repeats an interface, it repeats a
field or value, or it has a reference that is not met. `IsRejected` says for each rejection at which
place of the definition it arises and which earlier place it names. No type that fits is rejected
(`ExtendedObject.IsRejected.not_fits`, `TypeDefinition.IsRejected.not_fits`).
-/

set_option autoImplicit false

namespace SchemaGraft

/-! ## What a definition must satisfy by itself -/

/-- An extended type fits: what its extensions add is new and their references are met. -/
structure ExtendedObject.Fits (kinds : Name → Option TypeKind) (extended : ExtendedObject) :
    Prop where
  interfaces : AreFresh extended.base.value.interfaces.keys
    (extended.clauses.flatMap (·.value.interfaces))
  fields : AreFresh extended.base.value.fields.keys
    (extended.clauses.flatMap fun clause => clause.value.fields.map (·.value.name))
  references : ∀ clause ∈ extended.clauses,
    ∀ reference ∈ clause.clauseReferences extended.base.value.name, reference.IsMet kinds

/-- A new type fits: it lists nothing twice and its references are met. -/
structure TypeDefinition.Fits (kinds : Name → Option TypeKind) (definition : TypeDefinition) :
    Prop where
  interfaces : AreFresh [] (definition.interfaces.map (·.name))
  members : AreFresh [] (definition.members.map (·.name))
  references : ∀ reference ∈ definition.references, reference.IsMet kinds

/-! ## Reasons of rejection -/

/-- The rejection of an interface that a type has already. -/
def RepeatsInterface (type : Name) (existing : List Name) (added : List Mention)
    (rejection : Rejection) : Prop :=
  ∃ before mention after, added = before ++ mention :: after ∧
    mention.name.text ∈ (existing ++ before.map (·.name)).map (·.text) ∧
    rejection = .duplicateInterface type mention.name mention.location

/-- The rejection of a name that is there already. It is worded by the later and the earlier mention
of the name. -/
def RepeatsEarlier (reject : Mention → Mention → Rejection) (existing added : List Mention)
    (rejection : Rejection) : Prop :=
  ∃ before mention after previous, added = before ++ mention :: after ∧
    previous ∈ existing ++ before ∧ previous.name.text = mention.name.text ∧
    rejection = reject mention previous

/-- The rejection of a field or value that a type has already. -/
abbrev RepeatsMember (type : Name) (existing added : List Mention) (rejection : Rejection) : Prop :=
  RepeatsEarlier
    (fun mention previous =>
      .duplicateField type mention.name mention.location previous.location)
    existing added rejection

/-- The rejection of a directive that the schema has already. -/
abbrev RepeatsDirective (existing added : List Mention) (rejection : Rejection) : Prop :=
  RepeatsEarlier
    (fun mention previous =>
      .directiveRedefinition mention.name mention.location previous.location)
    existing added rejection

/-- The rejection of a reference that is not met. -/
def LeavesUnmet (kinds : Name → Option TypeKind) (references : List Reference)
    (rejection : Rejection) : Prop :=
  ∃ reference ∈ references, reference.rejection? kinds = some rejection

theorem RepeatsInterface.not_areFresh {type : Name} {existing : List Name} {added : List Mention}
    {rejection : Rejection} (repeats : RepeatsInterface type existing added rejection) :
    ¬ AreFresh existing (added.map (·.name)) := by
  obtain ⟨before, mention, after, rfl, present, _⟩ := repeats
  rw [List.map_append, List.map_cons]
  exact not_areFresh_of_split present

theorem RepeatsEarlier.not_areFresh {reject : Mention → Mention → Rejection}
    {existing added : List Mention} {rejection : Rejection}
    (repeats : RepeatsEarlier reject existing added rejection) :
    ¬ AreFresh (existing.map (·.name)) (added.map (·.name)) := by
  obtain ⟨before, mention, after, previous, rfl, member, same, _⟩ := repeats
  rw [List.map_append, List.map_cons]
  refine not_areFresh_of_split ?_
  rw [← List.map_append, ← same]
  exact List.mem_map_of_mem (List.mem_map_of_mem member)

/-- A repetition in one part of what is added is a repetition in the whole. -/
theorem RepeatsInterface.of_part {type : Name} {existing : List Name} {part : List Mention}
    {rejection : Rejection} (earlier later : List Mention)
    (repeats : RepeatsInterface type (existing ++ earlier.map (·.name)) part rejection) :
    RepeatsInterface type existing (earlier ++ part ++ later) rejection := by
  obtain ⟨before, mention, after, rfl, present, rfl⟩ := repeats
  refine ⟨earlier ++ before, mention, after ++ later, by simp, ?_, rfl⟩
  simpa only [List.map_append, List.append_assoc] using present

theorem RepeatsEarlier.of_part {reject : Mention → Mention → Rejection}
    {existing part : List Mention} {rejection : Rejection} (earlier later : List Mention)
    (repeats : RepeatsEarlier reject (existing ++ earlier) part rejection) :
    RepeatsEarlier reject existing (earlier ++ part ++ later) rejection := by
  obtain ⟨before, mention, after, previous, rfl, member, same, rfl⟩ := repeats
  refine ⟨earlier ++ before, mention, after ++ later, previous, by simp, ?_, same, rfl⟩
  simpa only [List.append_assoc] using member

/-- The reasons for which an extended type is rejected. -/
inductive ExtendedObject.IsRejected (kinds : Name → Option TypeKind) (extended : ExtendedObject) :
    Rejection → Prop where
  | interface {rejection : Rejection}
      (repeats : RepeatsInterface extended.base.value.name extended.base.value.interfaces.keys
        (extended.clauses.flatMap fun clause =>
          interfaceMentions clause.location clause.value.interfaces) rejection) :
      extended.IsRejected kinds rejection
  | field {rejection : Rejection}
      (repeats : RepeatsMember extended.base.value.name
        (memberMentions extended.base.value.fields.entries)
        (extended.clauses.flatMap fun clause => fieldMentions clause.value.fields) rejection) :
      extended.IsRejected kinds rejection
  | reference {rejection : Rejection} {clause : Node ObjectExtension}
      (member : clause ∈ extended.clauses)
      (unmet : LeavesUnmet kinds (clause.clauseReferences extended.base.value.name) rejection) :
      extended.IsRejected kinds rejection

/-- The reasons for which a new type is rejected. -/
inductive TypeDefinition.IsRejected (kinds : Name → Option TypeKind) (definition : TypeDefinition) :
    Rejection → Prop where
  | interface {rejection : Rejection}
      (repeats : RepeatsInterface definition.name [] definition.interfaces rejection) :
      definition.IsRejected kinds rejection
  | member {rejection : Rejection}
      (repeats : RepeatsMember definition.name [] definition.members rejection) :
      definition.IsRejected kinds rejection
  | reference {rejection : Rejection}
      (unmet : LeavesUnmet kinds definition.references rejection) :
      definition.IsRejected kinds rejection

theorem LeavesUnmet.not_isMet {kinds : Name → Option TypeKind} {references : List Reference}
    {rejection : Rejection} (unmet : LeavesUnmet kinds references rejection) :
    ¬ ∀ reference ∈ references, reference.IsMet kinds := by
  obtain ⟨reference, member, wrong⟩ := unmet
  exact fun met => Reference.not_isMet_of_rejection? wrong (met reference member)

theorem map_name_interfaceMentions (location : Option Location) (interfaces : List Name) :
    (interfaceMentions location interfaces).map (·.name) = interfaces := by
  simp [interfaceMentions, Function.comp_def]

theorem map_name_fieldMentions (fields : List (Node FieldDefinition)) :
    (fieldMentions fields).map (·.name) = fields.map (·.value.name) := by
  simp [fieldMentions, Function.comp_def]

theorem map_name_memberMentions {α : Type} (entries : List (Name × Node α)) :
    (memberMentions entries).map (·.name) = entries.map (·.1) := by
  simp [memberMentions, Function.comp_def]

/-- Only extended types that do not fit are rejected. -/
theorem ExtendedObject.IsRejected.not_fits {kinds : Name → Option TypeKind}
    {extended : ExtendedObject} {rejection : Rejection}
    (rejected : extended.IsRejected kinds rejection) : ¬ extended.Fits kinds := by
  intro fits
  cases rejected with
  | interface repeats =>
      refine repeats.not_areFresh ?_
      simpa only [List.map_flatMap, map_name_interfaceMentions] using fits.interfaces
  | field repeats =>
      refine repeats.not_areFresh ?_
      simpa only [List.map_flatMap, map_name_fieldMentions, map_name_memberMentions,
        OrderedMap.keys] using fits.fields
  | reference member unmet => exact unmet.not_isMet (fits.references _ member)

/-- Only new types that do not fit are rejected. -/
theorem TypeDefinition.IsRejected.not_fits {kinds : Name → Option TypeKind}
    {definition : TypeDefinition} {rejection : Rejection}
    (rejected : definition.IsRejected kinds rejection) : ¬ definition.Fits kinds := by
  intro fits
  cases rejected with
  | interface repeats => exact repeats.not_areFresh fits.interfaces
  | member repeats => exact repeats.not_areFresh fits.members
  | reference unmet => exact unmet.not_isMet fits.references

end SchemaGraft
