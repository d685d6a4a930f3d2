import SchemaGraft.Proofs.OwnDefinitions

/-!
# What a schema stores under a name

A schema stores types, directives, fields, values and input fields under names, and keeps beside a
field or value what its directives say about it. All of this could be computed again from what is
stored, and it is what would come out: every key is the name of what it leads to, and deprecations
and internal values are those of the stored element itself (`Schema.isFaithful_of_reachable`).

An extension fills these maps in several places, and copies a type with all that it has whenever it
extends it. One step is enough all the same: types that are kept are not touched, and all others
have under each name what a definition of that name makes (`SchemaType.IsAsDefined`).

Which reason a deprecation has is told by the applications of directives in the order in which they
are written (`Directives.Deprecate`): the first application decides, and in it the first argument.
-/

set_option autoImplicit false

namespace SchemaGraft

/-! ## Deprecation by the directives that are applied -/

/-- The first item of a list that is called by a name. -/
def Node.IsFirst {α : Type} (nameOf : α → Name) (name : String) (items : List (Node α))
    (item : Node α) : Prop :=
  ∃ before after, items = before ++ item :: after ∧ (nameOf item.value).text = name ∧
    ∀ other ∈ before, (nameOf other.value).text ≠ name

theorem Node.isFirst_iff {α : Type} {nameOf : α → Name} {name : String} {items : List (Node α)}
    {item : Node α} : Node.IsFirst nameOf name items item ↔
      (items.find? fun item => (nameOf item.value).text == name) = some item := by
  rw [List.find?_eq_some_iff_append]
  simp only [IsFirst, beq_iff_eq, ne_eq, Bool.not_eq_true', beq_eq_false_iff_ne]
  constructor
  · rintro ⟨before, after, split, named, first⟩
    exact ⟨named, before, after, split, first⟩
  · rintro ⟨named, before, after, split, first⟩
    exact ⟨before, after, split, named, first⟩

/-- The reason that an application of `@deprecated` gives: the text of the first argument `reason`
if it is a string, its printed form if it is anything else, and a set phrase if it is null or
missing. -/
inductive Directive.GivesReason (directive : Directive) : String → Prop where
  | missing (absent : ∀ argument ∈ directive.arguments, argument.value.name.text ≠ "reason") :
      directive.GivesReason Deprecation.defaultReason
  | null {argument : Node Argument}
      (first : Node.IsFirst (·.name) "reason" directive.arguments argument)
      (isNull : argument.value.value.value = .null) :
      directive.GivesReason Deprecation.defaultReason
  | string {argument : Node Argument} {reason : String}
      (first : Node.IsFirst (·.name) "reason" directive.arguments argument)
      (isString : argument.value.value.value = .string reason) : directive.GivesReason reason
  | printed {argument : Node Argument}
      (first : Node.IsFirst (·.name) "reason" directive.arguments argument)
      (notNull : argument.value.value.value ≠ .null)
      (notString : ∀ reason, argument.value.value.value ≠ .string reason) :
      directive.GivesReason argument.value.value.value.print

/-- What the directives that are applied to something say about its deprecation: something is
deprecated if an application is called `deprecated`, for the reason that the first one gives. -/
def Directives.Deprecate (directives : Directives) : Option Deprecation → Prop
  | none => ∀ directive ∈ directives, directive.value.name.text ≠ "deprecated"
  | some deprecation => ∃ directive, Node.IsFirst (·.name) "deprecated" directives directive ∧
      directive.value.GivesReason deprecation.reason

theorem Directive.givesReason_iff {directive : Directive} {reason : String} :
    directive.GivesReason reason ↔ reason = Deprecation.reasonOf directive := by
  unfold Deprecation.reasonOf Directive.argument?
  constructor
  · rintro (absent | ⟨first, isNull⟩ | ⟨first, isString⟩ | ⟨first, notNull, notString⟩)
    · rw [List.find?_eq_none.2 (by simpa using absent)]
      rfl
    · rw [Node.isFirst_iff.1 first, Option.map_some, isNull]
    · rw [Node.isFirst_iff.1 first, Option.map_some, isString]
    · rw [Node.isFirst_iff.1 first, Option.map_some]
      split <;> simp_all
  · rintro rfl
    cases found : directive.arguments.find? fun argument =>
      argument.value.name.text == "reason" with
    | none => exact .missing (by simpa using found)
    | some argument =>
        have first := (@Node.isFirst_iff _ Argument.name _ _ _).2 found
        rw [Option.map_some]
        cases value : argument.value.value.value with
        | null => exact .null first value
        | string reason => exact .string first value
        | _ =>
            have printed := GivesReason.printed first (by simp [value]) (by simp [value])
            rwa [value] at printed

/-- What applied directives say is what is computed from them. -/
theorem Directives.deprecate_iff {directives : Directives} {deprecation : Option Deprecation} :
    directives.Deprecate deprecation ↔ deprecation = Deprecation.ofDirectives? directives := by
  unfold Deprecation.ofDirectives? Directives.get?
  cases found : directives.find? fun directive => directive.value.name.text == "deprecated" with
  | none =>
      have absent : ∀ directive ∈ directives, directive.value.name.text ≠ "deprecated" := by
        simpa using found
      cases deprecation with
      | none => exact iff_of_true absent rfl
      | some deprecation =>
          refine iff_of_false ?_ (by simp)
          rintro ⟨directive, first, _⟩
          rw [(Node.isFirst_iff.1 first : directives.find? _ = _)] at found
          cases found
  | some directive =>
      cases deprecation with
      | none =>
          refine iff_of_false (fun absent => ?_) (by simp)
          exact absent directive (List.mem_of_find?_eq_some found)
            (by simpa using List.find?_some found)
      | some deprecation =>
          obtain ⟨reason⟩ := deprecation
          simp only [Deprecate, Directive.givesReason_iff, @Node.isFirst_iff _ Directive.name,
            found, Option.some.injEq, Option.map_some, Deprecation.mk.injEq, exists_eq_left']

/-! ## Faithful schemas -/

/-- **What a schema stores under a name is called so, and what it keeps beside an element is what
the element says.** -/
structure Schema.IsFaithful (schema : Schema) : Prop where
  types : ∀ entry ∈ schema.types.entries, (entry.1 == entry.2.name) = true
  directives : ∀ entry ∈ schema.directives.entries, (entry.1 == entry.2.value.name) = true
  /-- The fields of object and interface types. -/
  fields : ∀ type ∈ schema.types.values, ∀ fields ∈ type.fields?, ∀ entry ∈ fields.entries,
    (entry.1 == entry.2.value.name) = true ∧
      entry.2.value.deprecation = Deprecation.ofDirectives? entry.2.value.directives ∧
      entry.2.value.directives.Deprecate entry.2.value.deprecation
  /-- The values of enum types. -/
  values : ∀ type, .enum type ∈ schema.types.values → ∀ entry ∈ type.value.values.entries,
    (entry.1 == entry.2.value.name) = true ∧
      entry.2.value.deprecation = Deprecation.ofDirectives? entry.2.value.directives ∧
      entry.2.value.directives.Deprecate entry.2.value.deprecation ∧
      entry.2.value.internalValue = .string entry.2.value.name.text
  /-- The fields of input object types. -/
  inputFields : ∀ type, .inputObject type ∈ schema.types.values →
    ∀ entry ∈ type.value.fields.entries, (entry.1 == entry.2.value.name) = true

/-- Types and directives are stored under their names, and types are as they are defined. -/
structure Schema.IsAsDefined (schema : Schema) : Prop where
  types : ∀ entry ∈ schema.types.entries,
    (entry.1 == entry.2.name) = true ∧ entry.2.IsAsDefined
  directives : ∀ entry ∈ schema.directives.entries, (entry.1 == entry.2.value.name) = true

theorem Schema.isAsDefined_empty : Schema.empty.IsAsDefined where
  types := List.forall_mem_nil _
  directives := List.forall_mem_nil _

/-- **A merge stores everything under its name if the base schema does.** -/
theorem Schema.IsMerge.isAsDefined {run : ExtensionRun} {base merged : Schema}
    {definitions : List Definition} (admits : base.Admits definitions)
    (isMerge : Schema.IsMerge run base definitions merged) (asDefined : base.IsAsDefined) :
    merged.IsAsDefined where
  types := by
    rintro ⟨name, type⟩ listed
    have stored : ∀ {type}, base.types.get? name = some type →
        (name == type.name) = true ∧ type.IsAsDefined := by
      intro type found
      obtain ⟨key, member, same⟩ := (OrderedMap.get?_eq_some_iff _ _ _).1 found
      obtain ⟨named, members⟩ := asDefined.types _ member
      exact ⟨BEq.trans (BEq.symm same) named, members⟩
    obtain ⟨kept, _⟩ | ⟨object, extended, found, _, rfl, extension⟩ |
        ⟨definition, _, same, makes⟩ :=
      isMerge.type_cases admits (OrderedMap.get?_of_mem listed)
    · exact stored kept
    · obtain ⟨named, members⟩ := stored found
      refine ⟨?_, extension.isAsDefined members⟩
      show (name == extended.value.name) = true
      rwa [extension.name]
    · exact ⟨makes.name ▸ BEq.symm same, makes.isAsDefined⟩
  directives := by
    rw [isMerge.directives, List.forall_mem_append, List.forall_mem_map]
    exact ⟨asDefined.directives, fun _ _ => BEq.rfl⟩

/-- What a schema stores under names shows in its maps. -/
theorem Schema.IsAsDefined.isFaithful {schema : Schema} (asDefined : schema.IsAsDefined) :
    schema.IsFaithful := by
  have members : ∀ type ∈ schema.types.values, type.IsAsDefined := by
    intro type member
    obtain ⟨entry, listed, rfl⟩ := List.mem_map.1 member
    exact (asDefined.types entry listed).2
  refine ⟨fun entry listed => (asDefined.types entry listed).1, asDefined.directives, ?_, ?_, ?_⟩
  · intro type member fields ofType entry listed
    have content : (entry.1, entry.2.location, entry.2.value) ∈ type.fieldContents := by
      cases type <;> cases ofType <;> exact List.mem_map_of_mem listed
    obtain ⟨named, deprecation⟩ := (members type member).fields _ content
    exact ⟨Name.beq_iff_text_eq.2 named, deprecation, Directives.deprecate_iff.2 deprecation⟩
  · intro type member entry listed
    obtain ⟨named, deprecation, value⟩ :=
      (members _ member).values (entry.1, entry.2.location, entry.2.value)
        (List.mem_map_of_mem listed)
    exact ⟨Name.beq_iff_text_eq.2 named, deprecation, Directives.deprecate_iff.2 deprecation, value⟩
  · exact fun type member entry listed =>
      Name.beq_iff_text_eq.2 ((members _ member).inputFields entry listed)

/-- **Every schema that extensions lead to is faithful.** -/
theorem Schema.isFaithful_of_reachable {schema : Schema} (reachable : schema.Reachable) :
    schema.IsFaithful :=
  (reachable.of_merge Schema.isAsDefined_empty fun admits isMerge asDefined =>
    isMerge.isAsDefined admits asDefined).isFaithful

/-- A text with a field that is deprecated twice, and a value that is deprecated for a null
reason. -/
def fadedSource : SourceFile :=
  ⟨"faded.graphql", "type Paint { red: Int @deprecated(reason: 5) @deprecated(reason: 6) } " ++
    "enum Shade { GREY @deprecated(reason: null) }"⟩

theorem Schema.isFaithful_of_reachable_faded :
    ∃ extended, (Schema.builtIn.extend ⟨1, .none⟩
        (Document.parse {} (.document 1) fadedSource).document).result = .ok extended ∧
      (extended.over Schema.builtIn).IsFaithful ∧
      ((extended.over Schema.builtIn).field? "Paint" "red").map (·.value.deprecation) =
        some (some ⟨"5"⟩) := by
  have evaluated : ∃ extended ∈ (Schema.builtIn.extend ⟨1, .none⟩
      (Document.parse {} (.document 1) fadedSource).document).result.toOption,
      ((extended.over Schema.builtIn).field? "Paint" "red").map (·.value.deprecation) =
        some (some ⟨"5"⟩) := by
    rw [← BuiltIn.schema_eq, Document.parse_literal _ _ fadedSource (append_eq_ofList rfl rfl)]
    decide +kernel
  obtain ⟨extended, becomes, deprecation⟩ := evaluated
  have succeeds := eq_ok_of_mem_toOption becomes
  have reachable := Schema.Reachable.builtIn.extend succeeds
  exact ⟨extended, succeeds, Schema.isFaithful_of_reachable reachable, deprecation⟩

end SchemaGraft
