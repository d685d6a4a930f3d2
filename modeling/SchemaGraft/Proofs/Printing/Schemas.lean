import SchemaGraft.Proofs.OwnDefinitions
import SchemaGraft.Proofs.Printing.Documents

/-!
# Reading printed schemas

**What can be written.** Everything that a schema holds beside what is built in was read from texts
without mistakes, and what was read can be written (`Schema.ReachableByReading.isWritable`). An
extension adds to a type, so the types of a schema are not the definitions of any text; but their
parts are.

**Main result.** The text of such a schema is read without an error, whatever its root types are
called and however its descriptions are laid out, but for two defects of the printing
(`Schema.errors_parse_print`). An enum type without values and an input object type without fields
are printed with empty braces, in which the grammar wants something. And an object type without
anything but a name must not stand in front of a type without a description.
-/

set_option autoImplicit false

namespace SchemaGraft

/-! ## What was read can be written -/

/-- A definition of a document can be written, as far as it becomes a part of schemas. -/
def Definition.IsWritable : Definition → Prop
  | .directive definition => definition.value.IsWritable
  | .type definition => definition.IsWritable
  | .objectExtension extension => extension.value.IsWritable
  | .otherExtension _ | .unrelated _ => True

theorem ReadsDefinition.isWritable {file : FileId} {tree : Tree} {definition : Definition}
    (reads : ReadsDefinition file tree definition) : definition.IsWritable := by
  cases definition with
  | directive definition => exact reads.isWritable_directive
  | type definition => exact reads.isWritable_type
  | objectExtension extension => exact reads.isWritable_extension
  | otherExtension _ | unrelated _ => trivial

/-- **What a text without mistakes defines can be written.** -/
theorem Document.areWritable_of_parse {limits : ReadingLimits} {file : FileId} {source : SourceFile}
    (valid : (Document.parse limits file source).errors = []) :
    ∀ definition ∈ (Document.parse limits file source).document.definitions,
      definition.IsWritable := by
  rw [Document.errors_parse, List.map_eq_nil_iff] at valid
  rw [Document.definitions_parse]
  exact (SyntaxTree.readsAll_of_clean file valid).forall_item fun _ _ reads => reads.isWritable

/-! ## Types of a merge -/

section Merge

variable {run : ExtensionRun}

/-- Fields that are added to a type can be written if their definitions can. -/
theorem areWritable_fieldEntries {key type : Name} {fields : List (Node FieldDefinition)}
    (writable : ∀ field ∈ fields, field.value.IsWritable) :
    ∀ field ∈ ((fieldEntries run key type fields).map (·.2)).map (Node.map Field.toDefinition),
      field.value.IsWritable := by
  simp only [fieldEntries, List.forall_mem_map]
  intro definition member
  have written := writable definition member
  exact ⟨written.name, written.arguments, written.type, written.directives⟩

/-- An extended type can be written if it could before and its extensions can. -/
theorem HasExtensions.isWritable {key : Name} {base extended : Node ObjectLikeType}
    {clauses : List (Node ObjectExtension)} (has : HasExtensions run key base clauses extended)
    (writable : base.value.toDefinition.IsWritable)
    (added : ∀ clause ∈ clauses, clause.value.IsWritable) :
    extended.value.toDefinition.IsWritable where
  name := by
    show IsWord .name extended.value.name.text
    rw [has.name]
    exact writable.name
  interfaces := by
    show ∀ interface ∈ extended.value.interfaces.keys, _
    rw [has.interfaces, List.forall_mem_append, List.forall_mem_flatMap]
    exact ⟨writable.interfaces, fun clause member => (added clause member).interfaces⟩
  directives := by
    show ∀ directive ∈ extended.value.directives, _
    rw [has.directives, List.forall_mem_append, List.forall_mem_flatMap]
    exact ⟨writable.directives, fun clause member => (added clause member).directives⟩
  fields := by
    show ∀ field ∈ extended.value.fields.values.map (Node.map Field.toDefinition), _
    rw [OrderedMap.values, has.fields, List.map_append, List.map_append, List.forall_mem_append]
    refine ⟨writable.fields, areWritable_fieldEntries ?_⟩
    rw [List.forall_mem_flatMap]
    exact fun clause member => (added clause member).fields

theorem TypeDefinition.IsWritable.name {definition : TypeDefinition}
    (writable : definition.IsWritable) : IsWord .name definition.name.text := by
  cases definition with
  | scalar definition => exact ScalarDefinition.IsWritable.name writable
  | object definition | interface definition => exact ObjectLikeDefinition.IsWritable.name writable
  | union definition => exact UnionDefinition.IsWritable.name writable
  | enum definition => exact EnumDefinition.IsWritable.name writable
  | inputObject definition => exact InputObjectDefinition.IsWritable.name writable

theorem TypeDefinition.IsWritable.directives {definition : TypeDefinition}
    (writable : definition.IsWritable) : Directives.AreWritable definition.directives := by
  cases definition with
  | scalar definition => exact ScalarDefinition.IsWritable.directives writable
  | object definition | interface definition =>
      exact ObjectLikeDefinition.IsWritable.directives writable
  | union definition => exact UnionDefinition.IsWritable.directives writable
  | enum definition => exact EnumDefinition.IsWritable.directives writable
  | inputObject definition => exact InputObjectDefinition.IsWritable.directives writable

theorem TypeDefinition.MakesObjectLike.isWritable {definition : Node ObjectLikeDefinition}
    {type : Node ObjectLikeType} (makes : MakesObjectLike run definition type)
    (named : IsWord .name type.value.name.text)
    (applied : Directives.AreWritable type.value.directives)
    (writable : definition.value.IsWritable) : type.value.toDefinition.IsWritable where
  name := named
  interfaces := by
    show ∀ interface ∈ type.value.interfaces.keys, _
    rw [makes.interfaces]
    exact writable.interfaces
  directives := applied
  fields := by
    show ∀ field ∈ type.value.fields.values.map (Node.map Field.toDefinition), _
    rw [OrderedMap.values, makes.fields]
    exact areWritable_fieldEntries writable.fields

/-- A new type can be written if its definition can. -/
theorem TypeDefinition.Makes.isWritable {definition : TypeDefinition} {type : SchemaType}
    (makes : definition.Makes run type) (writable : definition.IsWritable) :
    type.toDefinition.IsWritable := by
  have named : IsWord .name type.name.text := makes.name ▸ writable.name
  have applied : Directives.AreWritable type.directives := makes.directives ▸ writable.directives
  have members := makes.members
  cases definition <;> cases type <;> first | exact members.elim | skip
  case scalar definition type => exact ⟨named, applied⟩
  case object definition type | interface definition type =>
      exact MakesObjectLike.isWritable members named applied writable
  case union definition type =>
      have keys : type.value.members.keys = _ := members
      refine ⟨named, applied, ?_⟩
      show ∀ member ∈ type.value.members.keys, _
      rw [keys]
      exact fun member listed =>
        UnionDefinition.IsWritable.members writable member (Name.mem_of_mem_distinct listed)
  case enum definition type =>
      have entries : type.value.values.entries = _ := members
      refine ⟨named, applied, ?_⟩
      show ∀ value ∈ type.value.values.values.map (Node.map EnumValue.toDefinition), _
      rw [OrderedMap.values, entries]
      simp only [List.forall_mem_map]
      intro value member
      have written := EnumDefinition.IsWritable.values writable value member
      exact ⟨written.name, written.free, written.directives⟩
  case inputObject definition type =>
      have entries : type.value.fields.entries = _ := members
      refine ⟨named, applied, ?_⟩
      show ∀ field ∈ type.value.fields.values.map (Node.map (InputValueDefinition.readBack _)), _
      rw [OrderedMap.values, entries]
      simp only [List.forall_mem_map]
      intro field member
      have written := InputObjectDefinition.IsWritable.fields writable field member
      exact ⟨written.name, written.type, written.default, written.directives⟩

end Merge

/-! ## Everything in a schema can be written -/

/-- Whatever a schema has beside what is built in can be written. -/
structure Schema.IsWritable (schema : Schema) : Prop where
  types : ∀ type ∈ schema.types.values, type.isBuiltIn = false → type.toDefinition.IsWritable
  directives : ∀ directive ∈ schema.directives.values, directive.isBuiltIn = false →
    directive.value.IsWritable

theorem Schema.isWritable_builtIn : Schema.builtIn.IsWritable where
  types type member own := by
    rw [Schema.isBuiltIn_builtIn.1 type member] at own
    cases own
  directives directive member own := by
    rw [Schema.isBuiltIn_builtIn.2 directive member] at own
    cases own

/-- **A merge can be written if the schema and the definitions can.** -/
theorem Schema.IsMerge.isWritable {run : ExtensionRun} {base merged : Schema}
    {definitions : List Definition} (admits : base.Admits definitions)
    (isMerge : Schema.IsMerge run base definitions merged) (kept : base.IsWritable)
    (written : ∀ definition ∈ definitions, definition.IsWritable) : merged.IsWritable where
  types type member own := by
    have writable_of_base : ∀ {name type}, base.types.get? name = some type →
        type.isBuiltIn = false → type.toDefinition.IsWritable := by
      intro name type found own
      obtain ⟨key, stored, _⟩ := (OrderedMap.get?_eq_some_iff _ _ _).1 found
      exact kept.types type (List.mem_map_of_mem stored) own
    obtain ⟨⟨name, _⟩, listed, rfl⟩ := List.mem_map.1 member
    obtain ⟨found, _⟩ | ⟨object, extended, found, _, rfl, extension⟩ |
        ⟨definition, member, _, makes⟩ :=
      isMerge.type_cases admits (OrderedMap.get?_of_mem listed)
    · exact writable_of_base found own
    · have same : SchemaType.location (.object extended) = SchemaType.location (.object object) :=
        extension.location
      rw [SchemaType.isBuiltIn_eq, same, ← SchemaType.isBuiltIn_eq] at own
      refine extension.toHasExtensions.isWritable (writable_of_base found own) ?_
      intro clause targeted
      rw [Definition.mem_clausesFor_iff, Definition.mem_clausesAmong_iff] at targeted
      exact written _ targeted.1
    · exact makes.isWritable (written _ (Definition.mem_typesAmong_iff.1 member))
  directives directive member own := by
    rw [OrderedMap.values, isMerge.directives, List.map_append, List.mem_append] at member
    rcases member with member | member
    · exact kept.directives directive member own
    · obtain ⟨entry, listed, rfl⟩ := List.mem_map.1 member
      obtain ⟨definition, found, rfl⟩ := List.mem_map.1 listed
      exact written _ (Definition.mem_directivesAmong_iff.1 found)

/-- **Whatever texts without mistakes bring into a schema can be written.** -/
theorem Schema.ReachableByReading.isWritable {schema : Schema}
    (reachable : schema.ReachableByReading) : schema.IsWritable :=
  reachable.of_merge Schema.isWritable_builtIn fun valid admits isMerge kept =>
    isMerge.isWritable admits kept (Document.areWritable_of_parse valid)

/-! ## The text of a schema -/

/-- A type may stand in front of another one without running into it. -/
def SchemaType.MayPrecede (type next : SchemaType) : Prop :=
  type.IsBareObject → next.description.isSome = true

instance : DecidableRel SchemaType.MayPrecede := fun type next =>
  inferInstanceAs (Decidable (type.IsBareObject → next.description.isSome = true))

namespace Schema

/-- What the text of a schema consists of. -/
def printedItems (schema : Schema) : List PrintedDefinition :=
  (if schema.hasDefaultRoots then [] else [.roots schema.roots]) ++
    schema.ownDirectives.map .directive ++ schema.ownTypes.map .type

theorem print_eq (schema : Schema) :
    schema.print = "\n".intercalate (schema.printedItems.map (·.text)) := by
  rw [print, printedDefinitions, printedItems, List.map_append, List.map_append, List.map_map,
    List.map_map]
  split <;> rfl

/-- What is printed of a schema can be written, if types have what they need. -/
theorem IsWritable.printedItems {schema : Schema} (writable : schema.IsWritable)
    (names : ∀ root ∈ schema.roots.toList, Name.IsValid root.2.text)
    (bodies : ∀ type ∈ schema.ownTypes, type.HasMembers) :
    ∀ item ∈ schema.printedItems, item.IsWritable := by
  rw [Schema.printedItems, List.forall_mem_append, List.forall_mem_append, List.forall_mem_map,
    List.forall_mem_map]
  refine ⟨⟨fun item listed => ?_, fun directive own => ?_⟩, fun type own => ?_⟩
  · split at listed
    · exact absurd listed List.not_mem_nil
    · next given =>
        obtain rfl := List.mem_singleton.1 listed
        refine ⟨fun none => given ?_, fun root member => isWord_of_isValid (names root member)⟩
        rw [hasDefaultRoots, none, List.all_nil]
  · obtain ⟨member, own⟩ := List.mem_filter.1 own
    exact writable.directives directive member (by simpa using own)
  · obtain ⟨member, foreign⟩ := List.mem_filter.1 own
    exact ⟨writable.types type member (by simpa using foreign), bodies type own⟩

/-- Only a type can run into what follows it. -/
theorem isChain_printedItems {schema : Schema}
    (apart : schema.ownTypes.IsChain SchemaType.MayPrecede) :
    schema.printedItems.IsChain PrintedDefinition.MayPrecede := by
  have types : (schema.ownTypes.map PrintedDefinition.type).IsChain PrintedDefinition.MayPrecede :=
    (List.isChain_map _).2 apart
  have directives : ∀ {directives : List (Node DirectiveDefinition)} {items},
      items.IsChain PrintedDefinition.MayPrecede →
      (directives.map PrintedDefinition.directive ++ items).IsChain
        PrintedDefinition.MayPrecede := by
    intro directives items chain
    induction directives with
    | nil => exact chain
    | cons first rest ih => exact List.IsChain.cons ih fun _ _ bare => bare.elim
  have chain := @directives schema.ownDirectives _ types
  rw [printedItems, List.append_assoc]
  split
  · exact chain
  · exact List.IsChain.cons chain fun _ _ bare => bare.elim

end Schema

/-- **The text of a schema is read without an error.** -/
theorem Schema.errors_parse_print {schema : Schema} {roots : RootOperations}
    {limits : ReadingLimits} {file : FileId} {source : SourceFile}
    (reachable : schema.ReachableByReading)
    (names : ∀ root ∈ roots.toList, Name.IsValid root.2.text)
    (bodies : ∀ type ∈ schema.ownTypes, type.HasMembers)
    (apart : schema.ownTypes.IsChain SchemaType.MayPrecede)
    (text : source.text = { schema with roots := roots }.print)
    (within : (Document.parse limits file source).IsWithin limits) :
    (Document.parse limits file source).errors = [] := by
  let printed : Schema := { schema with roots := roots }
  have writable : printed.IsWritable :=
    ⟨reachable.isWritable.types, reachable.isWritable.directives⟩
  have items : ∀ item ∈ printed.printedItems, item.IsWritable :=
    writable.printedItems names bodies
  have chain : printed.printedItems.IsChain PrintedDefinition.MayPrecede :=
    Schema.isChain_printedItems apart
  rw [Schema.print_eq] at text
  exact (Document.parse_print items chain text within).1

/-! ### Texts that are read and printed again -/

/-- A text with a description on two lines. -/
def ringSource : SourceFile :=
  ⟨"ring.graphql", "\"\"\"\nGoes\nround.\n\"\"\"\ntype Ring @closed { next: Ring }"⟩

/-- The root operations of which the queries have the type `Ring`. -/
def ringRoots : RootOperations := ⟨some (.plain "Ring"), none, none⟩

theorem Schema.errors_parse_print_ring :
    ∃ schema ∈ Schema.builtIn.afterReading ringSource,
      { schema with roots := ringRoots }.print = "schema \x7b\n  query: Ring\n\x7d\n\n" ++
        "\"\"\"\nGoes\nround.\n\"\"\"\ntype Ring @closed \x7b\n  next: Ring\n\x7d\n" ∧
      (Document.parse {} (.document 2)
        ⟨"printed.graphql", { schema with roots := ringRoots }.print⟩).errors = [] := by
  have evaluated : ∃ schema ∈ Schema.builtIn.afterReading ringSource,
      (∀ type ∈ schema.ownTypes, type.HasMembers) ∧
      schema.ownTypes.IsChain SchemaType.MayPrecede ∧
      { schema with roots := ringRoots }.print = "schema \x7b\n  query: Ring\n\x7d\n\n" ++
        "\"\"\"\nGoes\nround.\n\"\"\"\ntype Ring @closed \x7b\n  next: Ring\n\x7d\n" := by
    rw [← BuiltIn.schema_eq, Schema.afterReading, Document.parse_literal _ _ ringSource rfl]
    decide +kernel
  obtain ⟨schema, becomes, bodies, apart, text⟩ := evaluated
  have reachable : schema.ReachableByReading := by
    refine .of_afterReading .builtIn ?_ becomes
    rw [Document.parse_literal _ _ ringSource rfl]
    decide +kernel
  refine ⟨schema, becomes, text, @Schema.errors_parse_print schema ringRoots {} _ _ reachable
    (by decide +kernel) bodies apart rfl ?_⟩
  rw [text]
  exact ParsedDocument.isWithin_default (by decide +kernel)

/-- A schema is printed as a text with the mistakes that are found in it. -/
theorem Schema.exists_misprint {found : Option Schema} {printed : String} {mistakes : List String}
    (reachable : ∀ schema ∈ found, schema.ReachableByReading)
    (prints : ∃ schema ∈ found, schema.print = printed)
    (depth : (Document.parse {} (.document 2) ⟨"printed.graphql", printed⟩).depthReached ≤ 500)
    (errors :
      (Document.parse {} (.document 2) ⟨"printed.graphql", printed⟩).errors.map (·.message) =
        mistakes) :
    ∃ schema : Schema, schema.ReachableByReading ∧ schema.print = printed ∧
      let again := Document.parse {} (.document 2) ⟨"printed.graphql", schema.print⟩
      again.IsWithin {} ∧ again.errors.map (·.message) = mistakes := by
  obtain ⟨schema, becomes, text⟩ := prints
  refine ⟨schema, reachable schema becomes, text, ?_⟩
  rw [text]
  exact ⟨ParsedDocument.isWithin_default depth, errors⟩

/-- An enum type without values and an input object type without fields are printed with empty
braces, which are a mistake in a text. -/
theorem Schema.parse_print_emptyBraces :
    (∃ schema : Schema, schema.ReachableByReading ∧ schema.print = "enum E \x7b\n\x7d\n" ∧
      let again := Document.parse {} (.document 2) ⟨"printed.graphql", schema.print⟩
      again.IsWithin {} ∧ again.errors.map (·.message) = ["expected Enum Value Definition"]) ∧
    ∃ schema : Schema, schema.ReachableByReading ∧ schema.print = "input I \x7b\n\x7d\n" ∧
      let again := Document.parse {} (.document 2) ⟨"printed.graphql", schema.print⟩
      again.IsWithin {} ∧
        again.errors.map (·.message) = ["expected an Input Value Definition"] := by
  have enum : ∃ schema ∈ Schema.builtIn.afterReading ⟨"given.graphql", "enum E"⟩,
      schema.print = "enum E \x7b\n\x7d\n" := by
    rw [← BuiltIn.schema_eq]
    decide +kernel
  have input : ∃ schema ∈ Schema.builtIn.afterReading ⟨"given.graphql", "input I"⟩,
      schema.print = "input I \x7b\n\x7d\n" := by
    rw [← BuiltIn.schema_eq]
    decide +kernel
  have reachable : ∀ text, (Document.parse {} (.document 1) ⟨"given.graphql", text⟩).errors = [] →
      ∀ schema ∈ Schema.builtIn.afterReading ⟨"given.graphql", text⟩,
        schema.ReachableByReading := fun _ valid _ becomes =>
    .of_afterReading .builtIn valid becomes
  exact ⟨Schema.exists_misprint (reachable _ (by decide +kernel)) enum (by decide +kernel)
      (by decide +kernel),
    Schema.exists_misprint (reachable _ (by decide +kernel)) input (by decide +kernel)
      (by decide +kernel)⟩

end SchemaGraft
