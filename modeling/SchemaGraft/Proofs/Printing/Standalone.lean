import SchemaGraft.Proofs.Printing.Documents

/-!
# Reading values and types by themselves

**Main result.** The text of every value that stands in a valid document, at any depth, is read by
itself as this value, and the text of every reference to a type with a valid name is read by itself
as this reference (`Document.readsBack_of_parse`).

What makes the values of a document special is that all of them can be written
(`Document.isWritable_of_holds`): there are other values of the type, such as enum values called
`null`, that their texts do not stand for.
-/

set_option autoImplicit false

namespace SchemaGraft

open SchemaGraft.Tree

/-! ## Values in a document -/

/-- A value stands inside another one, at any depth, or is that value. -/
inductive Value.IsPartOf (part : Value) : Value → Prop where
  | whole : IsPartOf part part
  | item {items : List (Node Value)} {item : Node Value} (member : item ∈ items)
      (inside : IsPartOf part item.value) : IsPartOf part (.list items)
  | field {fields : List (Name × Node Value)} {field : Name × Node Value}
      (member : field ∈ fields) (inside : IsPartOf part field.2.value) :
      IsPartOf part (.object fields)

/-- The values that directives are given. -/
def Directives.values (directives : Directives) : List Value :=
  directives.flatMap fun directive =>
    directive.value.arguments.map fun argument => argument.value.value.value

/-- The default value of an argument or input field and the values its directives are given. -/
def InputValueDefinition.values (definition : InputValueDefinition) : List Value :=
  definition.default.toList.map (·.value) ++ definition.directives.values

/-- The values in the definition of a field. -/
def FieldDefinition.values (definition : FieldDefinition) : List Value :=
  definition.arguments.flatMap (·.value.values) ++ definition.directives.values

/-- The values in the definition of a type. -/
def TypeDefinition.values : TypeDefinition → List Value
  | scalar definition => definition.value.directives.values
  | object definition | interface definition =>
    definition.value.directives.values ++ definition.value.fields.flatMap (·.value.values)
  | union definition => definition.value.directives.values
  | enum definition =>
    definition.value.directives.values ++
      definition.value.values.flatMap (·.value.directives.values)
  | inputObject definition =>
    definition.value.directives.values ++ definition.value.fields.flatMap (·.value.values)

/-- The values in a definition. -/
def Definition.values : Definition → List Value
  | directive definition => definition.value.arguments.flatMap (·.value.values)
  | type definition => definition.values
  | objectExtension extension =>
    extension.value.directives.values ++ extension.value.fields.flatMap (·.value.values)
  | otherExtension _ | unrelated _ => []

/-- A value stands somewhere in a document, at any depth. -/
def Document.Holds (document : Document) (value : Value) : Prop :=
  ∃ definition ∈ document.definitions, ∃ whole ∈ definition.values, value.IsPartOf whole

/-! ### They can be written -/

/-- What stands inside a value that can be written can be written. -/
theorem Value.IsPartOf.isWritable {part whole : Value} (inside : part.IsPartOf whole)
    (writable : whole.IsWritable) : part.IsWritable := by
  induction inside with
  | whole => exact writable
  | item member _ ih =>
      cases writable with
      | list each => exact ih (each _ member)
  | field member _ ih =>
      cases writable with
      | object _ each => exact ih (each _ member)

theorem Directives.AreWritable.values {directives : Directives}
    (writable : directives.AreWritable) : ∀ value ∈ directives.values, value.IsWritable := by
  rw [Directives.values, List.forall_mem_flatMap]
  intro directive member
  rw [List.forall_mem_map]
  exact fun argument given => ((writable directive member).arguments argument given).value

theorem InputValueDefinition.IsWritable.values {definition : InputValueDefinition}
    (writable : definition.IsWritable) : ∀ value ∈ definition.values, value.IsWritable := by
  rw [InputValueDefinition.values, List.forall_mem_append, List.forall_mem_map]
  exact ⟨fun default member => writable.default default (Option.mem_toList.1 member),
    writable.directives.values⟩

theorem FieldDefinition.IsWritable.values {definition : FieldDefinition}
    (writable : definition.IsWritable) : ∀ value ∈ definition.values, value.IsWritable := by
  rw [FieldDefinition.values, List.forall_mem_append, List.forall_mem_flatMap]
  exact ⟨fun argument member => (writable.arguments argument member).values,
    writable.directives.values⟩

/-- The values in some directive applications and some fields can be written if these can. -/
theorem isWritable_of_fields {directives : Directives} {fields : List (Node FieldDefinition)}
    (applied : directives.AreWritable) (each : ∀ field ∈ fields, field.value.IsWritable) :
    ∀ value ∈ directives.values ++ fields.flatMap (·.value.values), value.IsWritable := by
  rw [List.forall_mem_append, List.forall_mem_flatMap]
  exact ⟨applied.values, fun field member => (each field member).values⟩

theorem TypeDefinition.IsWritable.values {definition : TypeDefinition}
    (writable : definition.IsWritable) : ∀ value ∈ definition.values, value.IsWritable := by
  cases definition with
  | scalar definition | union definition => exact writable.directives.values
  | object definition | interface definition =>
      exact isWritable_of_fields writable.directives writable.fields
  | enum definition =>
      have writable : definition.value.IsWritable := writable
      rw [TypeDefinition.values, List.forall_mem_append, List.forall_mem_flatMap]
      exact ⟨writable.directives.values,
        fun value member => (writable.values value member).directives.values⟩
  | inputObject definition =>
      rw [TypeDefinition.values, List.forall_mem_append, List.forall_mem_flatMap]
      exact ⟨writable.directives.values,
        fun field member => (writable.fields field member).values⟩

/-- The values in a definition that was read can be written. -/
theorem ReadsDefinition.isWritable_values {file : FileId} {tree : Tree} {definition : Definition}
    (reads : ReadsDefinition file tree definition) :
    ∀ value ∈ definition.values, value.IsWritable := by
  cases definition with
  | directive definition =>
      rw [Definition.values, List.forall_mem_flatMap]
      exact fun argument member => (reads.isWritable_directive.arguments argument member).values
  | type definition => exact reads.isWritable_type.values
  | objectExtension extension =>
      have writable := reads.isWritable_extension
      exact isWritable_of_fields writable.directives writable.fields
  | otherExtension extension | unrelated definition => exact List.forall_mem_nil _

/-- **Every value in a valid document can be written.** -/
theorem Document.isWritable_of_holds {limits : ReadingLimits} {file : FileId} {source : SourceFile}
    (valid : (Document.parse limits file source).errors = []) {value : Value}
    (held : (Document.parse limits file source).document.Holds value) : value.IsWritable := by
  obtain ⟨definition, member, whole, stands, inside⟩ := held
  have writable := (Document.readsAll_of_parse valid).forall_item
    (fun _ _ reads => reads.isWritable_values) definition member
  exact inside.isWritable (writable whole stands)

/-! ## Reading a part of a document by itself -/

open Grammar State

/-- A part of a document that stands by itself. Nothing may be behind it. -/
def Grammar.alone (part : Production) : Production :=
  branch .document (sequence [part, whenever isBeforeEnd (report .documentItemExpected), flush])

/-- The syntax tree of a text that is a part of a document by itself. It is read like the text of a
document (`SyntaxTree.ofText`), with the part in place of the definitions. -/
def SyntaxTree.ofPart (part : Nat → Production) (limits : ReadingLimits) (text : String) :
    SyntaxTree :=
  let lexemes := lexemes limits.tokens text
  let state := Grammar.alone (part limits.depth) (.start limits.depth lexemes)
  { tree := state.children.headD (.branch .document 0 0 [])
    faults := state.faults.reverse
    tokensReached := lexemes.length
    depthReached := state.deepest }

/-- No limit was reached in reading a text. -/
structure SyntaxTree.IsWithin (limits : ReadingLimits) (read : SyntaxTree) : Prop where
  depth : read.depthReached ≤ limits.depth
  tokens : ∀ count ∈ limits.tokens, read.tokensReached ≤ count

/-- The text of a value, read as a value and nothing else, gives this value: no fault is found, and
the value of the tree is equal to it, and the same but for the places where it stands. -/
def Value.ReadsBack (value : Value) : Prop :=
  ∀ (limits : ReadingLimits) (file : FileId),
    let read := SyntaxTree.ofPart (Grammar.value true · false) limits value.print
    read.IsWithin limits → read.faults = [] ∧
      ∃ again, firstValue? file read.tree.children = some again ∧
        again.value.bare = value.bare ∧ (again.value == value) = true

/-- The text of a reference to a type, read as a type and nothing else, gives this reference: no
fault is found, and the type of the tree is equal to it, and the same but for its place. -/
def TypeReference.ReadsBack (reference : TypeReference) : Prop :=
  ∀ (limits : ReadingLimits) (file : FileId),
    let read := SyntaxTree.ofPart Grammar.type limits reference.print
    read.IsWithin limits → read.faults = [] ∧
      ∃ again, read.tree.type? file = some again ∧
        again.value.bare = reference.bare ∧ (again.value == reference) = true

namespace Grammar

/-- Behind a part that is the whole text, nothing more is expected. -/
theorem accepts_alone {chars : List Char} {follows : List Char → Prop} {part : Production}
    {holds : List Tree → Prop} (accepts : Accepts chars follows part holds) (ends : follows []) :
    Accepts chars (· = [])
      (sequence [part, whenever isBeforeEnd (report .documentItemExpected), flush]) holds := by
  have atEnd : Meeting isBeforeEnd false [] (· = []) := by
    rintro state more rfl stands
    exact isBeforeEnd_of_hasToken (stands.hasToken .endOfInput)
  have behind : Accepts [] (· = [])
      (sequence [whenever isBeforeEnd (report .documentItemExpected), flush]) Nothing :=
    (Accepts.whenever_no atEnd (.report _)).silently accepts_flush fun _ nothing => nothing
  have whole := accepts.andThen behind fun more nothing => by
    rw [nothing]
    exact ends
  rw [List.append_nil] at whole
  refine whole.mono ?_
  rintro trees ⟨front, _, rfl, found, rfl⟩
  rwa [List.append_nil]

end Grammar

/-- What a production accepts at any depth is read without a fault where it is the whole text, and
is all that the tree tells. -/
theorem SyntaxTree.ofPart_reads {part : Nat → Production} {text : String}
    {follows : List Char → Prop} {holds : List Tree → Prop}
    (accepts : ∀ left, Grammar.Accepts text.toList follows (part left) holds) (ends : follows [])
    {limits : ReadingLimits} (within : (SyntaxTree.ofPart part limits text).IsWithin limits) :
    (SyntaxTree.ofPart part limits text).faults = [] ∧
      holds (telling (SyntaxTree.ofPart part limits text).tree.children) := by
  have depth := within.depth
  rw [ofPart, lexemes_eq_none within.tokens] at depth ⊢
  obtain ⟨clean, start, stop, children, others, root, found⟩ :=
    Grammar.branch_reads limits.depth (Grammar.accepts_alone (accepts limits.depth) ends) depth
  rw [Grammar.alone, clean, root, List.headD_cons]
  exact ⟨rfl, found⟩

/-- A value that can be written is read back. -/
theorem Value.readsBack {value : Value} (writable : value.IsWritable) : value.ReadsBack := by
  intro limits file read within
  obtain ⟨clean, tree, again, told, reads, same⟩ := SyntaxTree.ofPart_reads
    (fun left => Grammar.accepts_value file writable left false) ends_nil within
  refine ⟨clean, again, ?_, same, Value.beq_of_bare same⟩
  rw [firstValue?_telling, told, firstValue?, if_pos reads.isValue_eq, reads.value?_eq]

/-- A reference to a type that can be written is read back. -/
theorem TypeReference.readsBack {reference : TypeReference} (writable : reference.IsWritable) :
    reference.ReadsBack := by
  intro limits file read within
  obtain ⟨clean, tree, again, told, reads, same⟩ := SyntaxTree.ofPart_reads
    (fun left => accepts_reference file writable left) (stops_nil (by simp)) within
  cases tree with
  | leaf role text start => cases reads
  | branch kind start stop children =>
      have typed : ReadsType file (.branch kind start stop children)
          (.ofLocation ⟨file, start, stop⟩ again) := .mk reads
      refine ⟨clean, _, typed.type?_eq ?_, same, TypeReference.beq_of_bare same⟩
      rw [told, isType_eq, typed.inSlot.find?_eq rfl, List.head?_cons]

/-- **Printed values and types are read back.** Whatever value stands in a valid document, at any
depth, its text read by itself is this value, and so it is with every type of any nesting of lists
and non-null types around a valid name, as long as no limit is reached. -/
theorem Document.readsBack_of_parse :
    (∀ (limits : ReadingLimits) (file : FileId) (source : SourceFile),
      (Document.parse limits file source).errors = [] →
      ∀ value, (Document.parse limits file source).document.Holds value → value.ReadsBack) ∧
    ∀ reference : TypeReference, Name.IsValid reference.innerName.text → reference.ReadsBack :=
  ⟨fun _ _ _ valid _ held => Value.readsBack (Document.isWritable_of_holds valid held),
    fun _ named => TypeReference.readsBack (isWord_of_isValid named)⟩

/-- The default value of an argument, with a quotation mark and a control character in a string and
a field that is repeated, is read back, and so is a type of several wrappers. -/
theorem Document.readsBack_of_parse_default :
    let source : SourceFile := ⟨"doc.graphql",
      "type A \x7b f(a: B = \x7bx: \"\\\"\\u0007\", x: [[], -1.5e3, RED]\x7d): Int \x7d"⟩
    let parsed := Document.parse {} (.document 0) source
    let type : TypeReference := .nonNullList (.list (.nonNullNamed (.plain "A")))
    parsed.errors = [] ∧
      (∃ value, parsed.document.Holds value ∧
        value.print = "\x7bx: \"\\\"\\u0007\", x: [[], -1.5e3, RED]\x7d" ∧
        (SyntaxTree.ofPart (Grammar.value true · false) {} value.print).IsWithin {} ∧
        value.ReadsBack) ∧
      Name.IsValid type.innerName.text ∧
        (SyntaxTree.ofPart Grammar.type {} type.print).IsWithin {} ∧ type.ReadsBack := by
  intro source parsed type
  have valid : parsed.errors = [] := by decide +kernel
  have texts : (parsed.document.definitions.flatMap Definition.values).map Value.print =
      ["\x7bx: \"\\\"\\u0007\", x: [[], -1.5e3, RED]\x7d"] := by decide +kernel
  have unlimited : ∀ count : Nat, count ∉ (none : Option Nat) := by simp
  obtain ⟨value, stands, text⟩ := List.mem_map.1 (texts ▸ List.mem_cons_self)
  obtain ⟨definition, member, whole⟩ := List.mem_flatMap.1 stands
  have held : parsed.document.Holds value := ⟨definition, member, value, whole, .whole⟩
  have named : Name.IsValid type.innerName.text := by decide
  refine ⟨valid, ⟨value, held, text, ⟨?_, fun count limit => absurd limit (unlimited count)⟩,
    Document.readsBack_of_parse.1 _ _ _ valid value held⟩, named,
    ⟨?_, fun count limit => absurd limit (unlimited count)⟩,
    Document.readsBack_of_parse.2 type named⟩
  · rw [text]
    decide +kernel
  · decide +kernel

end SchemaGraft
