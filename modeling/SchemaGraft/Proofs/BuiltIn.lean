import Mathlib.Data.List.Forall2
import SchemaGraft.BuiltIn
import SchemaGraft.Proofs.OrderedMaps

/-!
# What every schema starts with

The built-in schema is read from a text like any other. What it has is therefore not written down
anywhere but in that text: five scalar types and four directives, and no names for root types
(`Schema.outline_builtIn`).

**Evaluation.** The definitions of the text are computed from its characters. A literal is compared
with the string of a list of characters by unfolding it once, while computing the characters of a
literal decodes it byte by byte. So the characters are found first, by `String.ofList`, and reading
starts from them (`Document.parse_literal`).
-/

set_option autoImplicit false

namespace SchemaGraft

/-! ## Reading from characters -/

/-- What is read from a text, computed from its characters. -/
def Document.parseChars (limits : ReadingLimits) (file : FileId) (source : SourceFile)
    (chars : List Char) : ParsedDocument :=
  let lexemes := lexemesFrom limits.tokens 0 0 chars
  let state := Grammar.document limits.depth (.start limits.depth lexemes)
  let tree := state.children.headD (.branch .document 0 0 [])
  { document := ⟨SourceMap.single file source, tree.definitions file⟩
    errors := state.faults.reverse.map (.ofFault file)
    tokensReached := lexemes.length
    depthReached := state.deepest }

theorem Document.parse_eq_parseChars {limits : ReadingLimits} {file : FileId}
    {source : SourceFile} {chars : List Char} (spelled : source.text.toList = chars) :
    Document.parse limits file source = Document.parseChars limits file source chars := by
  rw [← spelled]
  rfl

/-- A text that is given as a literal is read from the characters of the literal. -/
theorem Document.parse_literal (limits : ReadingLimits) (file : FileId) (source : SourceFile)
    {chars : List Char} (spelled : source.text = String.ofList chars) :
    Document.parse limits file source = Document.parseChars limits file source chars :=
  Document.parse_eq_parseChars (spelled ▸ String.toList_ofList)

theorem append_eq_ofList {left right : String} {front back : List Char}
    (leftSpelled : left = String.ofList front) (rightSpelled : right = String.ofList back) :
    left ++ right = String.ofList (front ++ back) := by
  rw [leftSpelled, rightSpelled, String.ofList_append]

namespace BuiltIn

/-- The characters of lines, each with its end. -/
theorem toList_join_lines {lines : List String} {chars : List (List Char)}
    (spelled : List.Forall₂ (fun line spelled => line = String.ofList spelled) lines chars) :
    (String.join (lines.map (· ++ "\n"))).toList = chars.flatMap (· ++ ['\n']) := by
  induction spelled with
  | nil => rfl
  | cons same _ ih =>
      subst same
      rw [List.map_cons, String.join_cons, String.toList_append, ih, String.toList_append,
        String.toList_ofList, List.flatMap_cons]
      rfl

/-- The characters of the lines of the built-in document. -/
def spelling : { chars : List (List Char) //
    List.Forall₂ (fun line spelled => line = String.ofList spelled)
      (directiveLines ++ [""] ++ scalarLines) chars } := by
  apply Subtype.mk
  repeat' first | exact .nil | apply List.Forall₂.cons | apply append_eq_ofList | rfl

/-- What is built in, read from characters. -/
def schema : Schema :=
  .ofDocument (Document.parseChars {} .builtIn source (spelling.1.flatMap (· ++ ['\n']))).document

theorem schema_eq : schema = Schema.builtIn := by
  have text : source.text.toList = spelling.1.flatMap (· ++ ['\n']) :=
    toList_join_lines spelling.2
  rw [schema, ← Document.parse_eq_parseChars text]
  rfl

end BuiltIn

/-! ## What is built in -/

/-- The names and kinds of the types, the names of the directives and those of the root types. -/
def Schema.outline (schema : Schema) : List (String × TypeKind) × List String × List String :=
  (schema.types.entries.map fun (name, type) => (name.text, type.kind),
    NameMap.texts schema.directives, schema.roots.toList.map (·.2.text))

theorem Schema.kinds_types_eq_outline (schema : Schema) :
    schema.types.values.map (·.kind) = schema.outline.1.map (·.2) := by
  rw [outline, List.map_map, OrderedMap.values, List.map_map]
  rfl

/-- **What is built in.** -/
theorem Schema.outline_builtIn : Schema.builtIn.outline =
    ([("Int", .scalar), ("Float", .scalar), ("String", .scalar), ("Boolean", .scalar),
      ("ID", .scalar)], ["include", "skip", "deprecated", "specifiedBy"], []) := by
  rw [← BuiltIn.schema_eq]
  decide +kernel

/-- All types that are built in are scalar types. -/
theorem Schema.kind_of_builtIn {type : SchemaType} (member : type ∈ Schema.builtIn.types.values) :
    type.kind = .scalar := by
  have kinds : Schema.builtIn.types.values.map (·.kind) = List.replicate 5 .scalar := by
    rw [Schema.kinds_types_eq_outline, Schema.outline_builtIn]
    rfl
  exact List.eq_of_mem_replicate (kinds ▸ List.mem_map_of_mem member)

end SchemaGraft
