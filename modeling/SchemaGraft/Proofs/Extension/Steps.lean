import SchemaGraft.Proofs.Extension.Outcome
import SchemaGraft.Proofs.SchemaContent

/-!
# Extending in two steps

A document that follows another one can extend what the other gave, or both can extend the base
schema at once. The rules are about the document as a whole, and so both ways are compared by their
rules and by what they merge, not by what the runs do.

**Rules.** Splitting a document splits each of its rules (`Schema.Admits.append_iff`), except that
a type can be extended in the second step that the first one defines: the whole document cannot
extend what it defines itself.

**Merges.** A type of the base schema gets the extensions of the first part and then those of the
second, a new type is the same image of its definition. So the schemas differ in nothing but the
marks that the runs leave (`Schema.IsMerge.type_agrees`).
-/

set_option autoImplicit false

namespace SchemaGraft

/-- A document followed by another one. -/
def Document.append (first second : Document) : Document where
  sources := first.sources.merge second.sources
  definitions := first.definitions ++ second.definitions

/-! ## What two runs make of one definition -/

section Runs

variable {run other : ExtensionRun} (resolvers : run.resolvers = other.resolvers)
include resolvers

/-- The fields that are added do not depend on the run but for their marks. -/
theorem contents_fieldEntries (key type : Name) (fields : List (Node FieldDefinition)) :
    (fieldEntries run key type fields).map
        (fun entry => (entry.1, entry.2.location, entry.2.value)) =
      (fieldEntries other key type fields).map
        fun entry => (entry.1, entry.2.location, entry.2.value) := by
  simp only [fieldEntries, Node.addedField, List.map_map, Function.comp_def, resolvers]

/-- Extending a type by some clauses and then by others is extending it by all of them. -/
theorem HasExtensions.agrees {early : ExtensionRun} (same : run.resolvers = early.resolvers)
    {key : Name} {base middle whole last : Node ObjectLikeType}
    {first second : List (Node ObjectExtension)}
    (at_once : HasExtensions run key base (first ++ second) whole)
    (begins : HasExtensions early key base first middle)
    (continues : HasExtensions other key middle second last) :
    (SchemaType.object whole).content = (SchemaType.object last).content ∧
      (SchemaType.object whole == SchemaType.object last) = true := by
  have description : whole.value.description = last.value.description := by
    rw [at_once.description, continues.description, begins.description]
  have name : whole.value.name = last.value.name := by
    rw [at_once.name, continues.name, begins.name]
  have interfaces : whole.value.interfaces.keys = last.value.interfaces.keys := by
    rw [at_once.interfaces, continues.interfaces, begins.interfaces, List.flatMap_append,
      List.append_assoc]
  have directives : whole.value.directives = last.value.directives := by
    rw [at_once.directives, continues.directives, begins.directives, List.flatMap_append,
      List.append_assoc]
  have fields : NameMap.contents whole.value.fields = NameMap.contents last.value.fields := by
    unfold NameMap.contents
    rw [at_once.fields, continues.fields, begins.fields, begins.name, List.flatMap_append]
    simp only [List.map_append, List.append_assoc]
    rw [← contents_fieldEntries same, ← contents_fieldEntries resolvers, ← List.map_append,
      ← List.map_append]
    simp only [fieldEntries, List.map_append]
  constructor
  · simp only [SchemaType.content, SchemaType.kind, SchemaType.location, SchemaType.description,
      SchemaType.name, SchemaType.directives, SchemaType.interfaceNames, SchemaType.fieldContents,
      SchemaType.memberNames, SchemaType.valueContents, SchemaType.inputFieldEntries]
    rw [at_once.location, continues.location, begins.location, description, name, directives,
      interfaces, fields]
  · exact Node.beq_of_value
      (ObjectLikeType.beq_of_contents description name interfaces directives fields)

/-- What an object or interface type holds does not depend on the run but for its marks. -/
theorem TypeDefinition.MakesObjectLike.agrees {definition : Node ObjectLikeDefinition}
    {left right : Node ObjectLikeType}
    (made : TypeDefinition.MakesObjectLike run definition left)
    (again : TypeDefinition.MakesObjectLike other definition right) :
    left.value.interfaces.keys = right.value.interfaces.keys ∧
      NameMap.contents left.value.fields = NameMap.contents right.value.fields := by
  refine ⟨made.interfaces.trans again.interfaces.symm, ?_⟩
  unfold NameMap.contents
  rw [made.fields, again.fields]
  exact contents_fieldEntries resolvers _ _ _

end Runs

section Makes

variable {run other : ExtensionRun}

/-- An added value equals itself, because its own name stands for it. -/
theorem addedValue_beq_self (type : Name) (definition : Node EnumValueDefinition) :
    ((definition.addedValue run type).value == (definition.addedValue run type).value) = true := by
  rw [EnumValue.beq_eq]
  simp [Node.addedValue, Json.string_beq_self]

theorem TypeDefinition.contents_values {definition : Node EnumDefinition}
    {left right : Node EnumType}
    (made : left.value.values.entries = definition.value.values.map fun value =>
      (value.value.name, value.addedValue run definition.value.name))
    (again : right.value.values.entries = definition.value.values.map fun value =>
      (value.value.name, value.addedValue other definition.value.name)) :
    NameMap.contents left.value.values = NameMap.contents right.value.values ∧
      ∀ entry ∈ left.value.values.entries, (entry.2.value == entry.2.value) = true := by
  constructor
  · unfold NameMap.contents
    rw [made, again]
    simp [Node.addedValue]
  · intro entry member
    rw [made] at member
    obtain ⟨value, _, rfl⟩ := List.mem_map.1 member
    exact addedValue_beq_self definition.value.name value

/-- **What two runs make of one definition differs in nothing but their marks.** -/
theorem TypeDefinition.Makes.agrees {definition : TypeDefinition} {left right : SchemaType}
    (resolvers : run.resolvers = other.resolvers) (made : definition.Makes run left)
    (again : definition.Makes other right) :
    left.content = right.content ∧ (left == right) = true := by
  have location := made.location.trans again.location.symm
  have description := made.description.trans again.description.symm
  have name := made.name.trans again.name.symm
  have directives := made.directives.trans again.directives.symm
  have members := made.members
  have members_again := again.members
  -- Both types are of the kind of the definition; all other cases are absurd.
  cases definition <;> cases left <;> first | exact members.elim | skip
  all_goals cases right <;> first | exact members_again.elim | skip
  case scalar.scalar.scalar =>
    constructor
    · exact SchemaType.content_congr rfl location description name directives rfl rfl rfl rfl rfl
    · exact Node.beq_of_value (ScalarType.beq_of_contents description name directives)
  case object.object.object | interface.interface.interface =>
    obtain ⟨interfaces, fields⟩ := MakesObjectLike.agrees resolvers members members_again
    constructor
    · exact SchemaType.content_congr rfl location description name directives interfaces fields rfl
        rfl rfl
    · exact Node.beq_of_value
        (ObjectLikeType.beq_of_contents description name interfaces directives fields)
  case union.union.union left right =>
    have members : left.value.members.keys = right.value.members.keys :=
      Eq.trans members (Eq.symm members_again)
    constructor
    · exact SchemaType.content_congr rfl location description name directives rfl rfl members rfl
        rfl
    · exact Node.beq_of_value (UnionType.beq_of_contents description name directives members)
  case enum.enum.enum =>
    obtain ⟨values, equal⟩ := TypeDefinition.contents_values members members_again
    constructor
    · exact SchemaType.content_congr rfl location description name directives rfl rfl rfl values rfl
    · exact Node.beq_of_value (EnumType.beq_of_contents description name directives values equal)
  case inputObject.inputObject.inputObject left right =>
    have fields : left.value.fields.entries = right.value.fields.entries :=
      Eq.trans members (Eq.symm members_again)
    constructor
    · exact SchemaType.content_congr rfl location description name directives rfl rfl rfl rfl fields
    · exact Node.beq_of_value (InputObjectType.beq_of_contents description name directives fields)

end Makes

/-! ## Splitting the rules -/

/-- No extension among later definitions is for a type that earlier ones define. -/
def Definition.ExtendsNoneOf (first second : List Definition) : Prop :=
  ∀ clause ∈ clausesAmong second, ∀ type ∈ typesAmong first,
    clause.value.name.text ≠ type.name.text

section Splitting

variable {run : ExtensionRun} {base middle : Schema} {first second : List Definition}

/-- The kinds that names have in the end are the same for both ways. -/
theorem Schema.IsMerge.kindWith?_append (admitted : base.Admits first)
    (isMerge : Schema.IsMerge run base first middle) (second : List Definition) :
    middle.kindWith? second = base.kindWith? (first ++ second) := by
  funext name
  have kinds : (middle.types.get? name).map (·.kind) = base.kindWith? first name :=
    congrFun (isMerge.kindOf?_eq admitted) name
  unfold Schema.kindWith? at kinds ⊢
  rw [kinds, Definition.typesAmong_append, List.find?_append, Option.map_or, Option.or_assoc]

theorem Schema.IsMerge.map_text_keys (isMerge : Schema.IsMerge run base first middle) :
    (base.types.keys ++ (Definition.typesAmong first).map (·.name)).map (·.text) =
      middle.types.keys.map (·.text) := by
  have names := isMerge.typeNames
  unfold NameMap.texts at names
  rw [names, List.map_append, List.map_map]
  rfl

theorem Schema.IsMerge.keys_directives (isMerge : Schema.IsMerge run base first middle) :
    middle.directives.keys =
      base.directives.keys ++ (Definition.directivesAmong first).map (·.value.name) := by
  unfold OrderedMap.keys
  rw [isMerge.directives, List.map_append, List.map_map]
  rfl

/-- A type that is extended must have been there before what is added with it. -/
theorem Schema.Admits.extendsNoneOf (admits : base.Admits (first ++ second)) :
    Definition.ExtendsNoneOf first second := by
  intro clause targeted type written same
  obtain ⟨object, found⟩ := admits.targets clause (by simp [targeted])
  refine admits.types.absent type.name (List.mem_map_of_mem (by simp [written])) ?_
  rw [← NameMap.texts, ← same, ← NameMap.contains_iff]
  exact OrderedMap.contains_of_get? found

/-- What the second document extends in the schema that the first one gave, the base schema had. -/
theorem Schema.IsMerge.object_of_merged (admitted : base.Admits first)
    (isMerge : Schema.IsMerge run base first middle)
    (apart : Definition.ExtendsNoneOf first second) {name : Name} {extended : Node ObjectLikeType}
    (extends_it : Definition.clausesFor second name ≠ [])
    (found : middle.types.get? name = some (.object extended)) :
    ∃ object, base.types.get? name = some (.object object) ∧
      HasExtensions run name object (Definition.clausesFor first name) extended := by
  obtain ⟨kept, none⟩ | ⟨object, _, stored, _, same, extension⟩ | ⟨type, written, same, _⟩ :=
    isMerge.type_cases admitted found
  · exact ⟨extended, kept, none ▸ HasExtensions.nil run name extended⟩
  · cases same
    exact ⟨object, stored, extension.toHasExtensions⟩
  · obtain ⟨clause, targeted⟩ := List.exists_mem_of_ne_nil _ extends_it
    obtain ⟨targeted, aimed⟩ := Definition.mem_clausesFor_iff.1 targeted
    refine absurd ?_ (apart clause targeted type written)
    rw [Name.beq_iff_text_eq.1 aimed, Name.beq_iff_text_eq.1 same]

/-- A schema that admits a whole document admits the second part after the first. -/
theorem Schema.Admits.after (admits : base.Admits (first ++ second)) (admitted : base.Admits first)
    (isMerge : Schema.IsMerge run base first middle) : middle.Admits second where
  keywords := fun extension member => admits.keywords extension (by simp [member])
  targets := by
    intro clause member
    obtain ⟨object, found⟩ := admits.targets clause (by simp [member])
    obtain ⟨extended, stored, _⟩ := isMerge.object_of_base found
    exact ⟨extended, stored⟩
  types := by
    have fresh := admits.types
    rw [Definition.typesAmong_append, List.map_append, areFresh_append_iff] at fresh
    exact fresh.2.congr isMerge.map_text_keys
  directives := by
    have fresh := admits.directives
    rw [Definition.directivesAmong_append, List.map_append, areFresh_append_iff] at fresh
    rw [isMerge.keys_directives]
    exact fresh.2
  extensionFields := by
    intro name extended found
    refine areFresh_flatMap_of_ne_nil fun some => ?_
    obtain ⟨object, stored, has⟩ :=
      isMerge.object_of_merged admitted admits.extendsNoneOf some found
    have fresh := admits.extensionFields stored
    rw [Definition.clausesFor_append, List.flatMap_append, areFresh_append_iff] at fresh
    rw [has.keys_fields]
    exact fresh.2
  extensionInterfaces := by
    intro name extended found
    refine areFresh_flatMap_of_ne_nil fun some => ?_
    obtain ⟨object, stored, has⟩ :=
      isMerge.object_of_merged admitted admits.extendsNoneOf some found
    have fresh := admits.extensionInterfaces stored
    rw [Definition.clausesFor_append, List.flatMap_append, areFresh_append_iff] at fresh
    rw [has.interfaces]
    exact fresh.2
  members := fun definition member => admits.members definition (by simp [member])
  interfaces := fun definition member => admits.interfaces definition (by simp [member])
  references := by
    rw [isMerge.kindWith?_append admitted]
    exact fun definition member => admits.references definition (by simp [member])

/-- A schema admits a whole document if it admits the first part and then the second, unless the
second part extends what the first one defines. -/
theorem Schema.Admits.append (admitted : base.Admits first)
    (isMerge : Schema.IsMerge run base first middle) (later : middle.Admits second)
    (apart : Definition.ExtendsNoneOf first second) : base.Admits (first ++ second) := by
  have kinds := isMerge.kindWith?_append admitted second
  have more : ∀ {name kind}, base.kindWith? first name = some kind →
      base.kindWith? (first ++ second) name = some kind := by
    intro name kind found
    rw [← isMerge.kindOf?_eq admitted, Schema.kindOf?] at found
    rw [← kinds, Schema.kindWith?, found, Option.some_or]
  exact
    { keywords := by
        intro extension member
        rcases List.mem_append.1 member with member | member
        · exact admitted.keywords extension member
        · exact later.keywords extension member
      targets := by
        intro clause member
        rw [Definition.clausesAmong_append, List.mem_append] at member
        rcases member with member | member
        · exact admitted.targets clause member
        · obtain ⟨extended, found⟩ := later.targets clause member
          have listed : clause ∈ Definition.clausesFor second clause.value.name :=
            Definition.mem_clausesFor_iff.2 ⟨member, BEq.rfl⟩
          obtain ⟨object, stored, _⟩ :=
            isMerge.object_of_merged admitted apart (List.ne_nil_of_mem listed) found
          exact ⟨object, stored⟩
      types := by
        rw [Definition.typesAmong_append, List.map_append, areFresh_append_iff]
        exact ⟨admitted.types, later.types.congr isMerge.map_text_keys.symm⟩
      directives := by
        rw [Definition.directivesAmong_append, List.map_append, areFresh_append_iff]
        exact ⟨admitted.directives, isMerge.keys_directives ▸ later.directives⟩
      extensionFields := by
        intro name object found
        obtain ⟨extended, stored, has⟩ := isMerge.object_of_base found
        have fresh := later.extensionFields stored
        rw [has.keys_fields] at fresh
        rw [Definition.clausesFor_append, List.flatMap_append, areFresh_append_iff]
        exact ⟨admitted.extensionFields found, fresh⟩
      extensionInterfaces := by
        intro name object found
        obtain ⟨extended, stored, has⟩ := isMerge.object_of_base found
        have fresh := later.extensionInterfaces stored
        rw [has.interfaces] at fresh
        rw [Definition.clausesFor_append, List.flatMap_append, areFresh_append_iff]
        exact ⟨admitted.extensionInterfaces found, fresh⟩
      members := by
        rw [Definition.typesAmong_append, List.forall_mem_append]
        exact ⟨admitted.members, later.members⟩
      interfaces := by
        rw [Definition.typesAmong_append, List.forall_mem_append]
        exact ⟨admitted.interfaces, later.interfaces⟩
      references := by
        rw [List.forall_mem_append]
        constructor
        · intro definition member reference listed
          exact (admitted.references definition member reference listed).mono more
        · rw [← kinds]
          exact later.references }

/-- **Splitting a document splits its rules.** -/
theorem Schema.Admits.append_iff (admitted : base.Admits first)
    (isMerge : Schema.IsMerge run base first middle) :
    base.Admits (first ++ second) ↔
      middle.Admits second ∧ Definition.ExtendsNoneOf first second := by
  constructor
  · exact fun admits => ⟨admits.after admitted isMerge, admits.extendsNoneOf⟩
  · rintro ⟨later, apart⟩
    exact admitted.append isMerge later apart

end Splitting

/-! ## Comparing the merges -/

section Merges

variable {run early late : ExtensionRun} {base middle whole last : Schema}
  {first second : List Definition} (early_same : run.resolvers = early.resolvers)
  (late_same : run.resolvers = late.resolvers) (admits : base.Admits (first ++ second))
  (at_once : Schema.IsMerge run base (first ++ second) whole)
  (begins : Schema.IsMerge early base first middle)
  (continues : Schema.IsMerge late middle second last)
include early_same late_same admits at_once begins continues

/-- **A type is the same whether it is made in one step or in two**, but for the marks of the
runs. -/
theorem Schema.IsMerge.type_agrees {name : Name} {left right : SchemaType}
    (found : whole.types.get? name = some left) (stored : last.types.get? name = some right) :
    left.content = right.content ∧ (left == right) = true := by
  obtain ⟨kept, none⟩ | ⟨object, extended, target, _, rfl, extension⟩ |
      ⟨definition, written, same, makes⟩ := at_once.type_cases admits found
  · rw [Definition.clausesFor_append, List.append_eq_nil_iff] at none
    rw [continues.kept (begins.kept kept none.1) none.2] at stored
    cases stored
    exact ⟨rfl, BEq.rfl⟩
  · obtain ⟨between, reached, begun⟩ := begins.object_of_base target
    obtain ⟨final, kept, continued⟩ := continues.object_of_base reached
    rw [kept] at stored
    cases stored
    have together := extension.toHasExtensions
    rw [Definition.clausesFor_append] at together
    exact HasExtensions.agrees late_same early_same together begun continued
  · rw [Definition.typesAmong_append, List.mem_append] at written
    rcases written with written | written
    · obtain ⟨between, reached, made⟩ := begins.added definition written
      rw [OrderedMap.get?_congr _ same] at reached
      -- A type that is new in the whole document is not extended by it, so it stays as it is.
      have none : Definition.clausesFor second name = [] := by
        by_contra some
        obtain ⟨clause, targeted⟩ := List.exists_mem_of_ne_nil _ some
        obtain ⟨targeted, aimed⟩ := Definition.mem_clausesFor_iff.1 targeted
        refine admits.extendsNoneOf clause targeted definition written ?_
        rw [Name.beq_iff_text_eq.1 aimed, Name.beq_iff_text_eq.1 same]
      rw [continues.kept reached none] at stored
      cases stored
      exact makes.agrees early_same made
    · obtain ⟨final, kept, made⟩ := continues.added definition written
      rw [OrderedMap.get?_congr _ same, stored] at kept
      cases kept
      exact makes.agrees late_same made

theorem Schema.IsMerge.agrees :
    whole.content = last.content ∧ (whole == last) = true := by
  have agree : ∀ {name left right}, whole.types.get? name = some left →
      last.types.get? name = some right → left.content = right.content ∧ (left == right) = true :=
    fun found stored =>
      type_agrees early_same late_same admits at_once begins continues found stored
  have texts : NameMap.texts whole.types = NameMap.texts last.types := by
    rw [at_once.typeNames, continues.typeNames, begins.typeNames, Definition.typesAmong_append,
      List.map_append, List.append_assoc]
  have directives : whole.directives = last.directives := by
    refine OrderedMap.ext ?_
    rw [at_once.directives, continues.directives, begins.directives,
      Definition.directivesAmong_append, List.map_append, List.append_assoc]
  have roots : whole.roots = last.roots := by
    rw [at_once.roots, continues.roots, begins.roots]
  constructor
  · unfold Schema.content
    rw [map_content_eq_of_texts texts fun found stored => (agree found stored).1, directives, roots]
  · have types : (whole.types == last.types) = true := by
      refine OrderedMap.same_of_agree ?_ ?_
      · have lengths := congrArg List.length texts
        simpa [NameMap.texts, OrderedMap.keys, OrderedMap.size] using lengths
      · intro entry member
        have found := OrderedMap.get?_of_mem member
        have present : last.types.contains entry.1 = true := by
          rw [NameMap.contains_iff, ← texts, ← NameMap.contains_iff]
          exact OrderedMap.contains_of_get? found
        obtain ⟨type, stored⟩ := (OrderedMap.contains_iff_exists_value _ _).1 present
        exact ⟨type, stored, (agree found stored).2⟩
    show (whole.directives == last.directives && whole.types == last.types &&
      whole.roots == last.roots) = true
    rw [types, directives, roots]
    simp

end Merges

/-! ## Extending in two steps -/

/-- The document `extend type Link { parent: Tree } scalar Weight`. -/
def weightDocument : Document where
  sources := OrderedMap.empty
  definitions :=
    [.objectExtension (.ofLocation ⟨.document 1, 0, 0⟩
      ⟨.plain "Link", [], [], [fieldNamed "parent" "Tree"]⟩),
    .type (.scalar (.ofLocation ⟨.document 1, 0, 0⟩ ⟨none, .plain "Weight", []⟩))]

/-- **Extending in two steps is extending once.** Where the first document is accepted, the whole is
accepted if and only if the second one is after the first and extends nothing that the first one
defines. Both ways then give equal schemas that hold the same in the same order. -/
theorem Schema.extend_append {resolvers : ResolverAssignment} {early late once : Nat}
    {base : Schema} {first second : Document} {middle : ExtendedSchema}
    (begun : (base.extend ⟨early, resolvers⟩ first).result = .ok middle) :
    ((∃ whole, (base.extend ⟨once, resolvers⟩ (first.append second)).result = .ok whole) ↔
      (∃ last, ((middle.over base).extend ⟨late, resolvers⟩ second).result = .ok last) ∧
        Definition.ExtendsNoneOf first.definitions second.definitions) ∧
    ∀ {whole last},
      (base.extend ⟨once, resolvers⟩ (first.append second)).result = .ok whole →
      ((middle.over base).extend ⟨late, resolvers⟩ second).result = .ok last →
      (whole.over base).content = (last.over (middle.over base)).content ∧
        (whole.over base == last.over (middle.over base)) = true := by
  have early_spec := Schema.extend_spec ⟨early, resolvers⟩ base first
  have late_spec := Schema.extend_spec ⟨late, resolvers⟩ (middle.over base) second
  have once_spec := Schema.extend_spec ⟨once, resolvers⟩ base (first.append second)
  rw [begun] at early_spec
  obtain ⟨admitted, begins, _⟩ := early_spec
  have split : base.Admits (first.definitions ++ second.definitions) ↔ _ :=
    admitted.append_iff begins
  constructor
  · constructor
    · rintro ⟨whole, at_once⟩
      rw [at_once] at once_spec
      obtain ⟨later, apart⟩ := split.1 once_spec.1
      refine ⟨?_, apart⟩
      cases result : ((middle.over base).extend ⟨late, resolvers⟩ second).result with
      | ok last => exact ⟨last, rfl⟩
      | error rejection =>
          rw [result] at late_spec
          exact absurd later late_spec
    · rintro ⟨⟨last, continued⟩, apart⟩
      rw [continued] at late_spec
      have admits := split.2 ⟨late_spec.1, apart⟩
      cases result : (base.extend ⟨once, resolvers⟩ (first.append second)).result with
      | ok whole => exact ⟨whole, rfl⟩
      | error rejection =>
          rw [result] at once_spec
          exact absurd admits once_spec
  · intro whole last at_once continued
    rw [at_once] at once_spec
    rw [continued] at late_spec
    obtain ⟨admits, at_once, _⟩ := once_spec
    obtain ⟨_, continues, _⟩ := late_spec
    refine Schema.IsMerge.agrees ?_ ?_ admits at_once begins continues
    · rfl
    · rfl

theorem Schema.extend_append_weight :
    ∃ middle last, (linkSchema.extend ⟨1, .none⟩ treeDocument).result = .ok middle ∧
      ((middle.over linkSchema).extend ⟨2, .none⟩ weightDocument).result = .ok last ∧
      ∃ whole, (linkSchema.extend ⟨3, .none⟩ (treeDocument.append weightDocument)).result =
          .ok whole ∧
        (whole.over linkSchema).content = (last.over (middle.over linkSchema)).content ∧
        NameMap.texts (last.over (middle.over linkSchema)).types = ["Link", "Tree", "Weight"] := by
  refine ⟨_, _, rfl, rfl, ?_⟩
  obtain ⟨accepted, equal⟩ := @Schema.extend_append .none 1 2 3 linkSchema treeDocument
    weightDocument _ rfl
  obtain ⟨whole, at_once⟩ := accepted.2 ⟨⟨_, rfl⟩, by
    simp [Definition.ExtendsNoneOf, Definition.clausesAmong, Definition.typesAmong, treeDocument,
      weightDocument, Node.ofLocation, Name.plain, TypeDefinition.name]⟩
  exact ⟨whole, at_once, (equal at_once rfl).1, rfl⟩

end SchemaGraft
