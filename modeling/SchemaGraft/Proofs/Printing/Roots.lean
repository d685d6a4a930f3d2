import SchemaGraft.Proofs.Printing.Schemas

/-!
# The root types of printed schemas

The text of a schema names its root types in a block of its own, unless each of them has its default
name (`Schema.leavesOutRoots_iff`). Without such a block, readers take the object types of the
default names for the root types.

**Main result.** A text without the block tells the root types of its schema if and only if no
object type has a default name without being the root type of that name (`Schema.impliedRoots_iff`).
The printing looks at the root types that are set and not at such strays, so the text of a schema
with an object type `Mutation` may tell of a root type that the schema does not have
(`Schema.print_strayMutation`).
-/

set_option autoImplicit false

namespace SchemaGraft

namespace Schema

/-! ## Texts with and without the block -/

/-- What the text of a schema has besides the names of the root types. -/
def printedBody (schema : Schema) : List String :=
  schema.ownDirectives.map printDirectiveDefinition ++ schema.ownTypes.map printType

/-- The text of a schema defines directives and types and says nothing about root types. -/
def LeavesOutRoots (schema : Schema) : Prop := schema.print = "\n".intercalate schema.printedBody

/-- Each root type that is set has its default name. -/
def RootsHaveDefaultNames (schema : Schema) : Prop :=
  ∀ operation name, schema.roots.get? operation = some name →
    name.text = operation.defaultRootName

theorem hasDefaultRoots_iff (schema : Schema) :
    schema.hasDefaultRoots = true ↔ schema.RootsHaveDefaultNames := by
  simp only [hasDefaultRoots, RootOperations.toList, List.all_eq_true, List.mem_filterMap,
    Option.map_eq_some_iff]
  constructor
  · intro named operation name set
    have listed : operation ∈ OperationType.all := by cases operation <;> decide
    simpa using named (operation, name) ⟨operation, listed, name, set, rfl⟩
  · rintro named _ ⟨operation, _, name, set, rfl⟩
    simpa using named operation name set

/-- One more definition in front makes another text. -/
theorem intercalate_cons_ne (gap first : String) (rest : List String) (nonempty : first ≠ "") :
    gap.intercalate (first :: rest) ≠ gap.intercalate rest := by
  cases rest with
  | nil => simpa using nonempty
  | cons second rest =>
      rw [String.intercalate_cons_cons]
      intro same
      have lengths := congrArg String.length same
      rw [String.length_append, String.length_append] at lengths
      exact nonempty (String.length_eq_zero_iff.1 (by omega))

theorem print_of_hasDefaultRoots {schema : Schema} (named : schema.hasDefaultRoots = true) :
    schema.LeavesOutRoots := by
  rw [LeavesOutRoots, print, printedDefinitions, if_pos named]
  rfl

theorem print_of_not_hasDefaultRoots {schema : Schema} (named : ¬ schema.hasDefaultRoots = true) :
    schema.print = "\n".intercalate (printRoots schema.roots :: schema.printedBody) := by
  rw [print, printedDefinitions, if_neg named]
  rfl

theorem printRoots_ne_empty (roots : RootOperations) : printRoots roots ≠ "" := by
  intro empty
  have chars := congrArg String.toList empty
  simp [printRoots] at chars

/-- **The block is left out if and only if each root type that is set has its default name.** -/
theorem leavesOutRoots_iff (schema : Schema) :
    schema.LeavesOutRoots ↔ schema.RootsHaveDefaultNames := by
  rw [← hasDefaultRoots_iff]
  refine ⟨fun omitted => ?_, print_of_hasDefaultRoots⟩
  by_contra named
  rw [LeavesOutRoots, print_of_not_hasDefaultRoots named] at omitted
  exact intercalate_cons_ne _ _ _ (printRoots_ne_empty _) omitted

/-! ## What is read without the block -/

/-- The root type of an operation that readers find in a text without the block: the object type of
the default name. -/
def impliedRoot? (schema : Schema) (operation : OperationType) : Option (Node ObjectLikeType) :=
  schema.object? operation.defaultRootName

/-- Where all names are default names, a root type is the object type of that name, or it is not
set. -/
theorem rootObject?_of_defaultNames {schema : Schema} (named : schema.RootsHaveDefaultNames)
    (operation : OperationType) :
    schema.rootObject? operation =
      if (schema.roots.get? operation).isSome then schema.impliedRoot? operation else none := by
  unfold rootObject?
  cases set : schema.roots.get? operation with
  | none => rfl
  | some name =>
      show schema.object? name.text = schema.object? operation.defaultRootName
      rw [named operation name set]

/-- **When a text tells the root types without naming them.** The block is left out exactly when all
root types that are set have their default names, and stands in front of all else otherwise. Without
it the text tells the root types that are object types of the schema, and no others, if and only if
each object type of a default name is the root type of that name. -/
theorem impliedRoots_iff (schema : Schema) :
    (schema.LeavesOutRoots ↔ schema.RootsHaveDefaultNames) ∧
      (¬ schema.LeavesOutRoots →
        schema.print = "\n".intercalate (printRoots schema.roots :: schema.printedBody)) ∧
      (schema.LeavesOutRoots →
        ((∀ operation, schema.impliedRoot? operation = schema.rootObject? operation) ↔
          ∀ operation, (schema.impliedRoot? operation).isSome →
            (schema.roots.get? operation).isSome)) := by
  refine ⟨leavesOutRoots_iff schema, fun named => ?_, fun omitted => ?_⟩
  · exact print_of_not_hasDefaultRoots fun given => named (print_of_hasDefaultRoots given)
  · have named := (leavesOutRoots_iff schema).1 omitted
    refine forall_congr' fun operation => ?_
    rw [rootObject?_of_defaultNames named]
    cases set : (schema.roots.get? operation).isSome with
    | true => simp
    | false => simp [Option.eq_none_iff_forall_ne_some, Option.isSome_iff_exists]

/-- **An object type may have a default name without being a root type.** Nothing in the text of
this schema says that it has no mutations. -/
theorem print_strayMutation :
    ∃ schema ∈ Schema.builtIn.afterReading
        ⟨"given.graphql", "type Query { a: Int } type Mutation { b: Int }"⟩,
      let rooted := { schema with roots := ⟨some (.plain "Query"), none, none⟩ }
      rooted.print = "type Query \x7b\n  a: Int\n\x7d\n\ntype Mutation \x7b\n  b: Int\n\x7d\n" ∧
      rooted.LeavesOutRoots ∧
      (rooted.impliedRoot? .mutation).isSome = true ∧
      rooted.roots.get? .mutation = none ∧ rooted.rootObject? .mutation = none := by
  have evaluated : ∃ schema ∈ Schema.builtIn.afterReading
        ⟨"given.graphql", "type Query { a: Int } type Mutation { b: Int }"⟩,
      let rooted := { schema with roots := ⟨some (.plain "Query"), none, none⟩ }
      rooted.print = "type Query \x7b\n  a: Int\n\x7d\n\ntype Mutation \x7b\n  b: Int\n\x7d\n" ∧
      rooted.hasDefaultRoots = true ∧ (rooted.impliedRoot? .mutation).isSome = true := by
    rw [← BuiltIn.schema_eq]
    decide +kernel
  obtain ⟨schema, becomes, text, named, stray⟩ := evaluated
  exact ⟨schema, becomes, text, print_of_hasDefaultRoots named, stray, rfl, rfl⟩

end Schema

end SchemaGraft
