import SchemaGraft.Proofs.Extension.BareRules
import SchemaGraft.Proofs.Printing.Schemas

/-!
# Schemas from their texts

The text of a schema defines the schema again. What is read from it are the schema's own types and
directives, places aside (`Document.parse_print`). The built-in schema admits them, because the
schema is closed and has no name twice (`Schema.IsBuiltUp.admits_definitions`), and a type that is
as its definition makes it comes out as it was, extensions and all
(`SchemaType.content_toDefinition`).

**Main result.** Extending what is built in by the text of a schema gives the schema again, in the
same order, but for the names of its root types, which an extension never sets
(`Schema.extend_parse_print`). For this the schema must be one whose text can be read, its
descriptions must have one line, because those with more are read back without their indentation,
and no field may have a resolver, of which a text says nothing.
-/

set_option autoImplicit false

namespace SchemaGraft

/-! ## Types as what they are printed as -/

/-- All descriptions of a type and its members have at most one line. -/
def SchemaType.HasShortDescriptions (type : SchemaType) : Prop :=
  ∀ description ∈ type.description :: type.memberDescriptions, IsOneLine description

/-- No field of a type has a resolver. -/
def SchemaType.IsUnresolved (type : SchemaType) : Prop :=
  ∀ entry ∈ type.fieldContents, entry.2.2.resolver = none

instance : DecidablePred SchemaType.HasShortDescriptions := fun type =>
  inferInstanceAs (Decidable (∀ description ∈ type.description :: type.memberDescriptions,
    IsOneLine description))

instance : DecidablePred SchemaType.IsUnresolved := fun type =>
  decidable_of_iff (∀ entry ∈ type.fieldContents, entry.2.2.resolver.isNone = true)
    (forall₂_congr fun _ _ => Option.isNone_iff_eq_none)

theorem Field.toField_toDefinition {field : Field} (line : IsOneLine field.description)
    (expressed : field.deprecation = Deprecation.ofDirectives? field.directives)
    (unresolved : field.resolver = none) : field.toDefinition.toField = field := by
  rw [FieldDefinition.toField, toDefinition, Schema.readBack_descriptionLiteral line, ← expressed,
    ← unresolved]

theorem EnumValue.toValue_toDefinition {value : EnumValue} (line : IsOneLine value.description)
    (expressed : value.deprecation = Deprecation.ofDirectives? value.directives)
    (internal : value.internalValue = .string value.name.text) :
    value.toDefinition.toValue = value := by
  rw [EnumValueDefinition.toValue, toDefinition, Schema.readBack_descriptionLiteral line,
    ← expressed, ← internal]

/-- Names without repetitions are listed as they are. -/
theorem Name.distinct_of_nodup {names : List Name} (nodup : (names.map (·.text)).Nodup) :
    Name.distinct names = names := by
  induction names with
  | nil => rfl
  | cons name rest ih =>
      rw [List.map_cons, List.nodup_cons] at nodup
      rw [distinct, ih nodup.2, List.filter_eq_self.2]
      intro other member
      rw [Bool.not_eq_true', ← Bool.not_eq_true, Name.beq_iff_text_eq]
      intro same
      exact nodup.1 (same ▸ List.mem_map_of_mem member)

namespace SchemaType

variable (type : SchemaType)

theorem kind_toDefinition : type.toDefinition.kind = type.kind := by
  cases type <;> rfl

theorem name_toDefinition : type.toDefinition.name = type.name := by
  cases type <;> rfl

theorem directives_toDefinition : type.toDefinition.directives = type.directives := by
  cases type <;> rfl

theorem description_toDefinition :
    type.toDefinition.description = readBack (Schema.descriptionLiteral "") type.description := by
  cases type <;> rfl

theorem interfaceNames_toDefinition : type.toDefinition.interfaceNames = type.interfaceNames := by
  cases type <;> rfl

theorem memberNames_toDefinition : type.toDefinition.memberNames = type.memberNames := by
  cases type with
  | union type => exact Name.distinct_of_nodup (NameMap.nodup_texts type.value.members)
  | scalar _ | object _ | interface _ | enum _ | inputObject _ => rfl

theorem fieldContents_toDefinition : type.toDefinition.fieldContents =
    type.fieldContents.map fun entry =>
      (entry.2.2.name, entry.2.1, entry.2.2.toDefinition.toField) := by
  cases type with
  | object type | interface type =>
      show (type.value.fields.values.map (Node.map Field.toDefinition)).map _ =
        (NameMap.contents type.value.fields).map _
      rw [NameMap.contents, OrderedMap.values, List.map_map, List.map_map, List.map_map]
      rfl
  | scalar _ | union _ | enum _ | inputObject _ => rfl

theorem valueContents_toDefinition : type.toDefinition.valueContents =
    type.valueContents.map fun entry =>
      (entry.2.2.name, entry.2.1, entry.2.2.toDefinition.toValue) := by
  cases type with
  | enum type =>
      show (type.value.values.values.map (Node.map EnumValue.toDefinition)).map _ =
        (NameMap.contents type.value.values).map _
      rw [NameMap.contents, OrderedMap.values, List.map_map, List.map_map, List.map_map]
      rfl
  | scalar _ | object _ | interface _ | union _ | inputObject _ => rfl

theorem inputFieldEntries_toDefinition : type.toDefinition.inputFieldEntries =
    type.inputFieldEntries.map fun entry =>
      (entry.2.value.name, entry.2.map (.readBack (Schema.descriptionLiteral "  "))) := by
  cases type with
  | inputObject type =>
      show (type.value.fields.values.map (Node.map (InputValueDefinition.readBack _))).map _ =
        type.value.fields.entries.map _
      rw [OrderedMap.values, List.map_map, List.map_map]
      rfl
  | scalar _ | object _ | interface _ | union _ | enum _ => rfl

theorem memberDescriptions_eq : type.memberDescriptions =
    type.fieldContents.map (·.2.2.description) ++ type.valueContents.map (·.2.2.description) ++
      type.inputFieldEntries.map (·.2.value.description) := by
  cases type <;> simp [memberDescriptions, fieldContents, valueContents, inputFieldEntries,
    NameMap.contents, OrderedMap.values, Function.comp_def]

variable {type}

theorem fieldContents_bare_eq (asDefined : type.IsAsDefined) (short : type.HasShortDescriptions)
    (unresolved : type.IsUnresolved) :
    type.toDefinition.content.bare.fields = type.content.bare.fields := by
  show type.toDefinition.fieldContents.map _ = type.fieldContents.map _
  rw [fieldContents_toDefinition, List.map_map]
  refine List.map_congr_left fun entry member => ?_
  obtain ⟨text, expressed⟩ := asDefined.fields entry member
  have line : IsOneLine entry.2.2.description := by
    refine short _ (List.mem_cons_of_mem _ ?_)
    rw [memberDescriptions_eq, List.append_assoc]
    exact List.mem_append_left _ (List.mem_map_of_mem member)
  rw [Function.comp_apply, Field.toField_toDefinition line expressed (unresolved entry member)]
  exact Prod.ext (Name.bare_eq_iff.2 text.symm) rfl

theorem valueContents_bare_eq (asDefined : type.IsAsDefined) (short : type.HasShortDescriptions) :
    type.toDefinition.content.bare.values = type.content.bare.values := by
  show type.toDefinition.valueContents.map _ = type.valueContents.map _
  rw [valueContents_toDefinition, List.map_map]
  refine List.map_congr_left fun entry member => ?_
  obtain ⟨text, expressed, internal⟩ := asDefined.values entry member
  have line : IsOneLine entry.2.2.description := by
    refine short _ (List.mem_cons_of_mem _ ?_)
    rw [memberDescriptions_eq]
    exact List.mem_append_left _ (List.mem_append_right _ (List.mem_map_of_mem member))
  rw [Function.comp_apply, EnumValue.toValue_toDefinition line expressed internal]
  exact Prod.ext (Name.bare_eq_iff.2 text.symm) rfl

theorem inputFieldEntries_bare_eq (asDefined : type.IsAsDefined)
    (short : type.HasShortDescriptions) :
    type.toDefinition.content.bare.inputFields = type.content.bare.inputFields := by
  show type.toDefinition.inputFieldEntries.map _ = type.inputFieldEntries.map _
  rw [inputFieldEntries_toDefinition, List.map_map]
  refine List.map_congr_left fun entry member => ?_
  have line : IsOneLine entry.2.value.description := by
    refine short _ (List.mem_cons_of_mem _ ?_)
    rw [memberDescriptions_eq]
    exact List.mem_append_right _ (List.mem_map_of_mem member)
  have same : entry.2.value.readBack (Schema.descriptionLiteral "  ") = entry.2.value := by
    rw [InputValueDefinition.readBack, Schema.readBack_descriptionLiteral line]
  rw [Function.comp_apply, Node.map, same]
  exact Prod.ext (Name.bare_eq_iff.2 (asDefined.inputFields entry member).symm) rfl

/-- **What a type is printed as makes the type again.** -/
theorem content_toDefinition (asDefined : type.IsAsDefined) (short : type.HasShortDescriptions)
    (unresolved : type.IsUnresolved) : type.toDefinition.content.bare = type.content.bare := by
  have description : type.toDefinition.description = type.description := by
    rw [description_toDefinition]
    exact Schema.readBack_descriptionLiteral (short _ List.mem_cons_self) ""
  have fields := fieldContents_bare_eq asDefined short unresolved
  have values := valueContents_bare_eq asDefined short
  have inputFields := inputFieldEntries_bare_eq asDefined short
  simp only [TypeContent.bare, TypeDefinition.content, content] at fields values inputFields ⊢
  rw [fields, values, inputFields, description, kind_toDefinition, name_toDefinition,
    directives_toDefinition, interfaceNames_toDefinition, memberNames_toDefinition]

end SchemaType

/-! ## The order of a schema -/

/-- The names of the parts of a type, in order: interfaces, fields, union members, enum values and
input fields. -/
def TypeContent.partNames (content : TypeContent) : List (List String) :=
  [content.interfaces.map (·.text), content.fields.map (·.1.text), content.members.map (·.text),
    content.values.map (·.1.text), content.inputFields.map (·.1.text)]

theorem TypeContent.partNames_bare (content : TypeContent) :
    content.bare.partNames = content.partNames := by
  simp [partNames, bare, Function.comp_def]

/-- The names of types, each with those of its parts, and of directives, in order. -/
def Schema.order (schema : Schema) : List (String × List (List String)) × List String :=
  ((NameMap.labelled schema.types).map fun (name, type) => (name, type.content.partNames),
    NameMap.texts schema.directives)

/-! ## What the text of a schema defines -/

namespace Schema

/-- The definitions that the text of a schema consists of. -/
def definitions (schema : Schema) : List Definition := schema.printedItems.map (·.toDefinition)

section Definitions

variable (schema : Schema)

theorem typesAmong_definitions :
    Definition.typesAmong schema.definitions = schema.ownTypes.map (·.toDefinition) := by
  unfold definitions printedItems
  split <;> simp [Definition.typesAmong, PrintedDefinition.toDefinition, List.filterMap_map,
    Function.comp_def]

theorem directivesAmong_definitions : Definition.directivesAmong schema.definitions =
    schema.ownDirectives.map (·.map DirectiveDefinition.asPrinted) := by
  unfold definitions printedItems
  split <;> simp [Definition.directivesAmong, PrintedDefinition.toDefinition, List.filterMap_map,
    Function.comp_def]

theorem clausesAmong_definitions : Definition.clausesAmong schema.definitions = [] := by
  unfold definitions printedItems
  split <;> simp [Definition.clausesAmong, PrintedDefinition.toDefinition, List.filterMap_map,
    Function.comp_def]

end Definitions

end Schema

/-! ## The built-in schema admits the text of a schema -/

theorem areFresh_of_nodup {existing added : List Name}
    (nodup : (existing.map (·.text) ++ added.map (·.text)).Nodup) : AreFresh existing added := by
  obtain ⟨_, distinct, apart⟩ := List.nodup_append.1 nodup
  exact ⟨distinct, fun name member present =>
    apart _ present _ (List.mem_map_of_mem member) rfl⟩

theorem areFresh_nil_of_texts {ν : Type} {added : List Name} (map : NameMap ν)
    (same : added.map (·.text) = NameMap.texts map) : AreFresh [] added := by
  refine areFresh_of_nodup ?_
  rw [List.map_nil, List.nil_append, same]
  exact NameMap.nodup_texts map

/-- What a type is printed as has no member twice. -/
theorem SchemaType.IsAsDefined.areFresh_members {type : SchemaType} (asDefined : type.IsAsDefined) :
    AreFresh [] (type.toDefinition.members.map (·.name)) := by
  cases type with
  | scalar type | union type => exact areFresh_nil []
  | object type | interface type =>
      refine areFresh_nil_of_texts type.value.fields ?_
      show ((fieldMentions (type.value.fields.values.map (Node.map Field.toDefinition))).map
        (·.name)).map (·.text) = (type.value.fields.entries.map (·.1)).map (·.text)
      rw [fieldMentions, OrderedMap.values, List.map_map, List.map_map, List.map_map, List.map_map,
        List.map_map]
      exact List.map_congr_left fun entry member =>
        (asDefined.fields _ (List.mem_map_of_mem member)).1.symm
  | enum type =>
      refine areFresh_nil_of_texts type.value.values ?_
      show (((type.value.values.values.map (Node.map EnumValue.toDefinition)).map _).map
        Mention.name).map (·.text) = (type.value.values.entries.map (·.1)).map (·.text)
      rw [OrderedMap.values, List.map_map, List.map_map, List.map_map, List.map_map, List.map_map]
      exact List.map_congr_left fun entry member =>
        (asDefined.values _ (List.mem_map_of_mem member)).1.symm
  | inputObject type =>
      refine areFresh_nil_of_texts type.value.fields ?_
      show (((type.value.fields.values.map (Node.map (InputValueDefinition.readBack _))).map _).map
        Mention.name).map (·.text) = (type.value.fields.entries.map (·.1)).map (·.text)
      rw [OrderedMap.values, List.map_map, List.map_map, List.map_map, List.map_map, List.map_map]
      exact List.map_congr_left fun entry member => (asDefined.inputFields _ member).symm

/-- What a type is printed as lists no interface twice. -/
theorem SchemaType.areFresh_interfaces (type : SchemaType) :
    AreFresh [] (type.toDefinition.interfaces.map (·.name)) := by
  cases type with
  | scalar type | union type | enum type | inputObject type => exact areFresh_nil []
  | object type | interface type =>
      refine areFresh_nil_of_texts type.value.interfaces ?_
      show ((interfaceMentions _ type.value.interfaces.keys).map (·.name)).map (·.text) =
        type.value.interfaces.keys.map (·.text)
      rw [interfaceMentions, List.map_map, List.map_map]
      rfl

/-- What a closed type is printed as refers to what the type refers to. -/
theorem SchemaType.IsClosed.references {kinds : Name → Option TypeKind} {type : SchemaType}
    (closed : type.IsClosed kinds) :
    ∀ reference ∈ type.toDefinition.references, reference.IsMet kinds := by
  cases type with
  | scalar type | enum type => exact List.forall_mem_nil _
  | object type | interface type =>
      refine forall_objectLikeReferences_iff.2 ⟨closed.1, ?_⟩
      exact List.forall_mem_map.2 closed.2
  | union type => exact forall_unionReferences_iff.2 closed
  | inputObject type =>
      refine forall_inputReference_iff.2 ?_
      exact List.forall_mem_map.2 closed

namespace Schema.IsBuiltUp

variable {schema : Schema} (builtUp : schema.IsBuiltUp)
include builtUp

theorem texts_types_eq : NameMap.texts schema.types =
    NameMap.texts Schema.builtIn.types ++ schema.ownTypes.map (·.name.text) := by
  rw [NameMap.texts_eq_labelled, builtUp.types_eq, List.map_append, ← NameMap.texts_eq_labelled,
    List.map_map]
  rfl

theorem texts_directives_eq : NameMap.texts schema.directives =
    NameMap.texts Schema.builtIn.directives ++ schema.ownDirectives.map (·.value.name.text) := by
  rw [NameMap.texts, OrderedMap.keys, builtUp.directives_eq, List.map_append, List.map_append,
    ← OrderedMap.keys, ← NameMap.texts, List.map_map, List.map_map]
  rfl

/-- The text of a schema gives names the kinds that they have in the schema. -/
theorem kindWith?_definitions :
    Schema.builtIn.kindWith? schema.definitions = schema.kindOf? := by
  have meets : ∀ name : Name, (fun definition : TypeDefinition => definition.name == name) ∘
      SchemaType.toDefinition = fun type => type.name.text == name.text := by
    intro name
    funext type
    rw [Function.comp_apply, SchemaType.name_toDefinition]
    rfl
  have kinds : TypeDefinition.kind ∘ SchemaType.toDefinition = SchemaType.kind :=
    funext fun type => type.kind_toDefinition
  funext name
  rw [Schema.kindWith?, schema.typesAmong_definitions, List.find?_map, meets, Option.map_map, kinds,
    Schema.kindOf?, NameMap.get?_eq_labelled schema.types, builtUp.types_eq, List.find?_append,
    Option.map_or, Option.map_or, ← NameMap.get?_eq_labelled, List.find?_map, Option.map_map,
    Option.map_map]
  rfl

/-- **The built-in schema admits the text of a closed schema.** -/
theorem admits_definitions (closed : schema.IsClosed) :
    Schema.builtIn.Admits schema.definitions := by
  have noClauses := schema.clausesAmong_definitions
  have noClausesFor : ∀ name, Definition.clausesFor schema.definitions name = [] := fun name => by
    rw [Definition.clausesFor, noClauses, List.filter_nil]
  constructor
  case keywords =>
    intro extension member
    obtain ⟨item, _, same⟩ := List.mem_map.1 member
    cases item <;> cases same
  case targets =>
    rw [noClauses]
    exact List.forall_mem_nil _
  case types =>
    refine areFresh_of_nodup ?_
    have distinct := NameMap.nodup_texts schema.types
    rw [builtUp.texts_types_eq] at distinct
    have names : ((Definition.typesAmong schema.definitions).map (·.name)).map (·.text) =
        schema.ownTypes.map (·.name.text) := by
      rw [schema.typesAmong_definitions, List.map_map, List.map_map]
      exact List.map_congr_left fun type _ => congrArg Name.text type.name_toDefinition
    rw [names]
    exact distinct
  case directives =>
    refine areFresh_of_nodup ?_
    have distinct := NameMap.nodup_texts schema.directives
    rw [builtUp.texts_directives_eq] at distinct
    rw [schema.directivesAmong_definitions, List.map_map, List.map_map]
    exact distinct
  case extensionFields =>
    intro name type _
    rw [noClausesFor]
    exact areFresh_nil _
  case extensionInterfaces =>
    intro name type _
    rw [noClausesFor]
    exact areFresh_nil _
  case members =>
    rw [schema.typesAmong_definitions, List.forall_mem_map]
    exact fun type member => (builtUp.isAsDefined member).areFresh_members
  case interfaces =>
    rw [schema.typesAmong_definitions, List.forall_mem_map]
    exact fun type _ => type.areFresh_interfaces
  case references =>
    intro definition member
    rw [builtUp.kindWith?_definitions]
    cases definition with
    | type definition =>
        have listed := Definition.mem_typesAmong_iff.2 member
        rw [schema.typesAmong_definitions] at listed
        obtain ⟨type, own, rfl⟩ := List.mem_map.1 listed
        exact (closed.types type (List.mem_filter.1 own).1).references
    | directive definition =>
        have listed := Definition.mem_directivesAmong_iff.2 member
        rw [schema.directivesAmong_definitions] at listed
        obtain ⟨directive, own, rfl⟩ := List.mem_map.1 listed
        exact forall_inputReference_iff.2 (closed.directives directive (List.mem_filter.1 own).1)
    | objectExtension clause =>
        have listed := Definition.mem_clausesAmong_iff.2 member
        rw [noClauses] at listed
        exact absurd listed List.not_mem_nil
    | otherExtension _ | unrelated _ => exact List.forall_mem_nil _

end Schema.IsBuiltUp

/-! ## Schemas with the same definitions -/

namespace Schema.IsBuiltUp

section Same

variable {schema : Schema} (builtUp : schema.IsBuiltUp)
include builtUp

theorem values_types_eq :
    schema.types.values = Schema.builtIn.types.values ++ schema.ownTypes := by
  rw [NameMap.values_eq_labelled, builtUp.types_eq, List.map_append, ← NameMap.values_eq_labelled,
    List.map_map]
  exact congrArg _ (List.map_id _)

/-- What stands for an enum value inside an executor equals itself. -/
theorem internalValue_beq_self {type : SchemaType} (member : type ∈ schema.types.values) :
    ∀ entry ∈ type.valueContents,
      (entry.2.2.internalValue == entry.2.2.internalValue) = true := by
  intro entry listed
  rw [builtUp.values_types_eq, List.mem_append] at member
  rcases member with member | own
  · have kind := Schema.kind_of_builtIn member
    cases type <;> cases kind
    exact absurd listed List.not_mem_nil
  · obtain ⟨_, _, internal⟩ := (builtUp.isAsDefined own).values entry listed
    rw [internal]
    exact Json.string_beq_self _

end Same

variable {left right : Schema} (builtUp : left.IsBuiltUp) (builtUp' : right.IsBuiltUp)
include builtUp builtUp'

/-- Schemas whose own types hold the same hold the same. -/
theorem labelled_content_eq
    (types : left.ownTypes.map (·.content.bare) = right.ownTypes.map (·.content.bare)) :
    (NameMap.labelled left.types).map (fun (name, type) => (name, type.content.bare)) =
      (NameMap.labelled right.types).map fun (name, type) => (name, type.content.bare) := by
  have own := congrArg (List.map fun content : TypeContent => (content.name.text, content)) types
  rw [List.map_map, List.map_map] at own
  rw [builtUp.types_eq, builtUp'.types_eq, List.map_append, List.map_append, List.map_map,
    List.map_map]
  exact congrArg _ own

/-- **Schemas whose own definitions are the same without places are equal** and have the same
order. -/
theorem same_of_own
    (types : left.ownTypes.map (·.content.bare) = right.ownTypes.map (·.content.bare))
    (directives : left.ownDirectives.map (·.bare DirectiveDefinition.bare) =
      right.ownDirectives.map (·.bare DirectiveDefinition.bare)) :
    (left == { right with roots := left.roots }) = true ∧ left.order = right.order := by
  have contents := labelled_content_eq builtUp builtUp' types
  have sameTypes : (left.types == right.types) = true := by
    refine NameMap.beq_of_entries (fun type : SchemaType => type.content.bare) ?_
      fun type member other _ same =>
        SchemaType.beq_of_content same (builtUp.internalValue_beq_self member)
    rw [NameMap.labelled, NameMap.labelled, List.map_map, List.map_map] at contents
    exact contents
  have named := congrArg (List.map fun directive : Node DirectiveDefinition =>
    (directive.value.name.text, directive)) directives
  rw [List.map_map, List.map_map] at named
  have sameDirectives : (left.directives == right.directives) = true := by
    refine NameMap.beq_of_entries (·.bare DirectiveDefinition.bare) ?_
      fun _ _ _ _ => Node.beq_of_bare fun _ _ => DirectiveDefinition.beq_of_bare
    rw [builtUp.directives_eq, builtUp'.directives_eq, List.map_append, List.map_append,
      List.map_map, List.map_map]
    exact congrArg _ named
  refine ⟨?_, Prod.ext ?_ ?_⟩
  · show (left.directives == right.directives && left.types == right.types &&
      left.roots == left.roots) = true
    rw [sameDirectives, sameTypes, BEq.rfl]
    rfl
  · have parts := congrArg (List.map fun entry : String × TypeContent =>
      (entry.1, entry.2.partNames)) contents
    rw [Schema.order, Schema.order]
    simpa only [List.map_map, Function.comp_def, TypeContent.partNames_bare] using parts
  · show NameMap.texts left.directives = NameMap.texts right.directives
    have texts := congrArg (List.map (·.1)) named
    rw [List.map_map, List.map_map] at texts
    rw [builtUp.texts_directives_eq, builtUp'.texts_directives_eq]
    exact congrArg _ texts

end Schema.IsBuiltUp

/-! ## Round trips -/

/-- What a document adds to what is built in. -/
theorem Schema.IsMerge.ownTypes_eq {run : ExtensionRun} {merged : Schema}
    {definitions : List Definition} (isMerge : Schema.IsMerge run .builtIn definitions merged)
    (builtUp : merged.IsBuiltUp) (none : Definition.clausesAmong definitions = [])
    (unresolved : ∀ type field, run.resolvers.resolverOf type field = Option.none) :
    merged.ownTypes.map (·.content) = (Definition.typesAmong definitions).map (·.content) := by
  obtain ⟨make, values, made⟩ := isMerge.exists_values_types none
  rw [builtUp.values_types_eq, List.append_cancel_left_eq] at values
  rw [values, List.map_map]
  exact List.map_congr_left fun definition member =>
    (made definition member).2.content_eq unresolved

theorem Schema.IsMerge.ownDirectives_eq {run : ExtensionRun} {merged : Schema}
    {definitions : List Definition} (isMerge : Schema.IsMerge run .builtIn definitions merged)
    (builtUp : merged.IsBuiltUp) :
    merged.ownDirectives = Definition.directivesAmong definitions := by
  have entries := builtUp.directives_eq
  rw [isMerge.directives, List.append_cancel_left_eq] at entries
  have values := congrArg (List.map (·.2)) entries
  simpa [Function.comp_def] using values.symm

/-- A directive definition whose description has one line is printed as it is. -/
theorem DirectiveDefinition.asPrinted_eq {directive : DirectiveDefinition}
    (line : IsOneLine directive.description) : directive.asPrinted = directive := by
  rw [asPrinted, Schema.readBack_descriptionLiteral line]

/-- A schema that a document makes of what is built in is the schema whose text the document
writes. -/
theorem Schema.IsMerge.same_of_definitions {run : ExtensionRun} {schema merged : Schema}
    {definitions : List Definition} (isMerge : Schema.IsMerge run .builtIn definitions merged)
    (builtUp : schema.IsBuiltUp) (builtUp' : merged.IsBuiltUp)
    (given : ∀ type field, run.resolvers.resolverOf type field = none)
    (short : ∀ type ∈ schema.ownTypes, type.HasShortDescriptions)
    (shortDirectives : ∀ directive ∈ schema.ownDirectives, IsOneLine directive.value.description)
    (unresolved : ∀ type ∈ schema.ownTypes, type.IsUnresolved)
    (same : definitions.map Definition.bare = schema.definitions.map Definition.bare) :
    (merged == { schema with roots := merged.roots }) = true ∧ merged.order = schema.order := by
  have noClauses : Definition.clausesAmong definitions = [] := by
    have none := Definition.map_bare_clausesAmong same
    rw [schema.clausesAmong_definitions, List.map_nil] at none
    exact List.map_eq_nil_iff.1 none
  have types : merged.ownTypes.map (·.content.bare) = schema.ownTypes.map (·.content.bare) := calc
    merged.ownTypes.map (·.content.bare)
      = (merged.ownTypes.map (·.content)).map TypeContent.bare := by
        rw [List.map_map]
        rfl
    _ = ((Definition.typesAmong definitions).map (·.bare)).map (·.content) := by
        rw [isMerge.ownTypes_eq builtUp' noClauses given, List.map_map, List.map_map]
        exact List.map_congr_left fun definition _ => definition.content_bare.symm
    _ = schema.ownTypes.map (·.content.bare) := by
        rw [Definition.map_bare_typesAmong same, schema.typesAmong_definitions, List.map_map,
          List.map_map]
        refine List.map_congr_left fun type own => ?_
        rw [Function.comp_apply, Function.comp_apply, TypeDefinition.content_bare]
        exact type.content_toDefinition (builtUp.isAsDefined own) (short type own)
          (unresolved type own)
  have directives : merged.ownDirectives.map (·.bare DirectiveDefinition.bare) =
      schema.ownDirectives.map (·.bare DirectiveDefinition.bare) := by
    rw [isMerge.ownDirectives_eq builtUp', Definition.map_bare_directivesAmong same,
      schema.directivesAmong_definitions, List.map_map]
    refine List.map_congr_left fun directive own => ?_
    rw [Function.comp_apply, Node.map,
      DirectiveDefinition.asPrinted_eq (shortDirectives directive own)]
    rfl
  exact builtUp'.same_of_own builtUp types directives

/-- **The text of a schema gives the schema again.** -/
theorem Schema.extend_parse_print {schema : Schema} {roots : RootOperations}
    {limits : ReadingLimits} {serial number : Nat} {source : SourceFile}
    (reachable : schema.ReachableByReading)
    (names : ∀ root ∈ roots.toList, Name.IsValid root.2.text)
    (bodies : ∀ type ∈ schema.ownTypes, type.HasMembers)
    (apart : schema.ownTypes.IsChain SchemaType.MayPrecede)
    (short : ∀ type ∈ schema.ownTypes, type.HasShortDescriptions)
    (shortDirectives : ∀ directive ∈ schema.ownDirectives, IsOneLine directive.value.description)
    (unresolved : ∀ type ∈ schema.ownTypes, type.IsUnresolved)
    (text : source.text = { schema with roots := roots }.print)
    (within : (Document.parse limits (.document serial) source).IsWithin limits) :
    (Document.parse limits (.document serial) source).errors = [] ∧
      ∃ extended, (Schema.builtIn.extend ⟨number, .none⟩
          (Document.parse limits (.document serial) source).document).result = .ok extended ∧
        (extended.over Schema.builtIn ==
          { schema with roots := (extended.over Schema.builtIn).roots }) = true ∧
        (extended.over Schema.builtIn).order = schema.order := by
  let printed : Schema := { schema with roots := roots }
  have printedBuiltUp : printed.IsBuiltUp := by
    have builtUp := reachable.isBuiltUp
    exact ⟨builtUp.typeNames, builtUp.kept, builtUp.own, builtUp.directives⟩
  have closed : printed.IsClosed := by
    have closed : schema.IsClosed := reachable.reachable.of_merge Schema.isClosed_empty
      fun admits isMerge closed => isMerge.isClosed admits closed
    exact ⟨closed.types, closed.directives⟩
  have writable : printed.IsWritable :=
    ⟨reachable.isWritable.types, reachable.isWritable.directives⟩
  obtain ⟨valid, read⟩ := Document.parse_print (writable.printedItems names bodies)
    (Schema.isChain_printedItems apart) (text.trans printed.print_eq) within
  have same : (Document.parse limits (.document serial) source).document.definitions.map
      Definition.bare = printed.definitions.map Definition.bare := by
    rw [read, Schema.definitions, List.map_map]
    rfl
  have admits := (printedBuiltUp.admits_definitions closed).of_bare same.symm
  obtain ⟨extended, succeeds⟩ := Schema.exists_extended ⟨number, .none⟩ admits
  have isMerge := (Schema.merged_of_extended succeeds).2
  have builtUp := isMerge.isBuiltUp admits (Document.definitions_lieIn _ _ _)
    Schema.isBuiltUp_builtIn
  have again := isMerge.same_of_definitions printedBuiltUp builtUp (fun _ _ => rfl) short
    shortDirectives unresolved same
  exact ⟨valid, extended, succeeds, again⟩

/-- A text with a directive definition, a type without a body and a type that refers to both. -/
def loopSource : SourceFile :=
  ⟨"loop.graphql", "directive @tint on FIELD_DEFINITION interface Loop " ++
    "\"Goes round\" type Ring implements Loop { next(by: Int = 1): [Ring!] @tint }"⟩

/-- The text as it is printed. -/
def loopText : String :=
  "schema \x7b\n  query: Ring\n\x7d\n\ndirective @tint on FIELD_DEFINITION\n\n" ++
    "interface Loop\n\n\"Goes round\"\n" ++
    "type Ring implements Loop \x7b\n  next(by: Int = 1): [Ring!] @tint\n\x7d\n"

theorem Schema.extend_parse_print_loop :
    ∃ schema ∈ Schema.builtIn.afterReading loopSource,
      { schema with roots := ringRoots }.print = loopText ∧
      ∃ extended, (Schema.builtIn.extend ⟨2, .none⟩
          (Document.parse {} (.document 2) ⟨"printed.graphql", loopText⟩).document).result =
            .ok extended ∧
        (extended.over Schema.builtIn ==
          { schema with roots := (extended.over Schema.builtIn).roots }) = true ∧
        (extended.over Schema.builtIn).order = schema.order := by
  have evaluated : ∃ schema ∈ Schema.builtIn.afterReading loopSource,
      ((∀ type ∈ schema.ownTypes, type.HasMembers) ∧
        schema.ownTypes.IsChain SchemaType.MayPrecede ∧
        (∀ type ∈ schema.ownTypes, type.HasShortDescriptions) ∧
        (∀ directive ∈ schema.ownDirectives, IsOneLine directive.value.description) ∧
        ∀ type ∈ schema.ownTypes, type.IsUnresolved) ∧
      { schema with roots := ringRoots }.print = loopText := by
    rw [← BuiltIn.schema_eq, Schema.afterReading,
      Document.parse_literal _ _ loopSource (append_eq_ofList rfl rfl)]
    decide +kernel
  obtain ⟨schema, becomes, ⟨bodies, apart, short, shortDirectives, unresolved⟩, text⟩ := evaluated
  have reachable : schema.ReachableByReading := by
    refine .of_afterReading .builtIn ?_ becomes
    rw [Document.parse_literal _ _ loopSource (append_eq_ofList rfl rfl)]
    decide +kernel
  have within : (Document.parse {} (.document 2) ⟨"printed.graphql", loopText⟩).IsWithin {} := by
    rw [Document.parse_literal _ _ ⟨"printed.graphql", loopText⟩
      (append_eq_ofList (append_eq_ofList rfl rfl) rfl)]
    exact ParsedDocument.isWithin_default (by decide +kernel)
  exact ⟨schema, becomes, text, (@Schema.extend_parse_print schema ringRoots {} 2 2 _ reachable
    (by decide +kernel) bodies apart short shortDirectives unresolved text.symm within).2⟩

/-- **An object type without a body runs into the next definition.** A second text can put a type
behind it that has no description, and then the printed schema is a text with a mistake. -/
theorem Schema.parse_print_bareObject :
    ∃ schema : Schema, schema.ReachableByReading ∧
      (∀ type ∈ schema.ownTypes, type.HasMembers ∧ type.HasShortDescriptions ∧ type.IsUnresolved) ∧
      (∀ directive ∈ schema.ownDirectives, IsOneLine directive.value.description) ∧
      schema.print = "type A\n\nscalar B\n" ∧
      let again := Document.parse {} (.document 2) ⟨"printed.graphql", schema.print⟩
      again.IsWithin {} ∧ again.errors.map (·.message) = ["unexpected Name"] := by
  have evaluated : ∃ base ∈ Schema.builtIn.afterReading ⟨"given.graphql", "type A"⟩,
      ∃ schema ∈ base.afterReading ⟨"given.graphql", "scalar B"⟩,
        (∀ type ∈ schema.ownTypes,
          type.HasMembers ∧ type.HasShortDescriptions ∧ type.IsUnresolved) ∧
        (∀ directive ∈ schema.ownDirectives, IsOneLine directive.value.description) ∧
        schema.print = "type A\n\nscalar B\n" := by
    rw [← BuiltIn.schema_eq]
    decide +kernel
  obtain ⟨base, becomesBase, schema, becomes, fit, shortDirectives, text⟩ := evaluated
  have reachable : base.ReachableByReading :=
    .of_afterReading .builtIn (by decide +kernel) becomesBase
  have reachable := reachable.of_afterReading (by decide +kernel) becomes
  refine ⟨schema, reachable, fit, shortDirectives, text, ?_⟩
  rw [text]
  exact ⟨ParsedDocument.isWithin_default (by decide +kernel), by decide +kernel⟩

end SchemaGraft
