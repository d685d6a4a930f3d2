import Mathlib.Data.List.Nodup
import SchemaGraft.Proofs.Extension.Steps

/-!
# Documents in another order

The definitions of a document may refer to each other in any order, and a type may be extended
before or after what its new fields refer to is defined. So the order of the definitions does not
matter for whether the document can extend a schema: each rule speaks of what is among the
definitions, not of where it stands (`Schema.Admits.perm`).

The order shows in the schema that comes out, but only as the order of what `==` does not see the
order of. There is one exception: the directives that are applied to a type are a list, so the
extensions that apply any must keep their order (`Definition.applyingClauses`).
-/

set_option autoImplicit false

namespace SchemaGraft

/-! ## The rules in another order -/

/-- New names are new in any order. -/
theorem AreFresh.perm {existing added other : List Name} (moved : added.Perm other)
    (fresh : AreFresh existing added) : AreFresh existing other :=
  ⟨(moved.map (·.text)).nodup_iff.1 fresh.distinct,
    fun name member => fresh.absent name (moved.mem_iff.2 member)⟩

namespace Definition

section Among

variable {definitions reordered : List Definition} (moved : definitions.Perm reordered)
include moved

theorem typesAmong_perm : (typesAmong definitions).Perm (typesAmong reordered) :=
  moved.filterMap _

theorem directivesAmong_perm : (directivesAmong definitions).Perm (directivesAmong reordered) :=
  moved.filterMap _

theorem clausesAmong_perm : (clausesAmong definitions).Perm (clausesAmong reordered) :=
  moved.filterMap _

theorem clausesFor_perm (name : Name) :
    (clausesFor definitions name).Perm (clausesFor reordered name) :=
  (clausesAmong_perm moved).filter _

end Among

/-- The extensions of a type that apply directives to it, in their order. -/
def applyingClauses (definitions : List Definition) (name : Name) : List (Node ObjectExtension) :=
  (clausesFor definitions name).filter fun clause => !clause.value.directives.isEmpty

/-- Extensions that apply no directives add none to those of their type. -/
theorem flatMap_directives_applyingClauses (definitions : List Definition) (name : Name) :
    (applyingClauses definitions name).flatMap (·.value.directives) =
      (clausesFor definitions name).flatMap (·.value.directives) := by
  unfold applyingClauses
  induction clausesFor definitions name with
  | nil => rfl
  | cons clause rest ih =>
      by_cases none : clause.value.directives = []
      · simp [none, ih]
      · simp [none, ih]

end Definition

section Rules

variable {base : Schema} {definitions reordered : List Definition}
  (moved : definitions.Perm reordered)
include moved

/-- Names have the same kinds in any order of the definitions, if no two types have one name. -/
theorem Schema.kindWith?_perm
    (fresh : AreFresh base.types.keys ((Definition.typesAmong definitions).map (·.name))) :
    base.kindWith? definitions = base.kindWith? reordered := by
  have types := Definition.typesAmong_perm moved
  have distinct := fresh.distinct
  rw [List.map_map] at distinct
  funext name
  unfold Schema.kindWith?
  congr 2
  cases found : (Definition.typesAmong definitions).find? (·.name == name) with
  | none =>
      refine (List.find?_eq_none.2 fun definition member => ?_).symm
      exact List.find?_eq_none.1 found definition (types.mem_iff.2 member)
  | some definition =>
      have listed := types.mem_iff.1 (List.mem_of_find?_eq_some found)
      cases again : (Definition.typesAmong reordered).find? (·.name == name) with
      | none => exact absurd (List.find?_some found) (List.find?_eq_none.1 again _ listed)
      | some other =>
          -- Both have the name that was looked for, so they are one definition.
          have same : definition.name.text = other.name.text :=
            (Name.beq_iff_text_eq.1 (by simpa using List.find?_some found)).trans
              (Name.beq_iff_text_eq.1 (by simpa using List.find?_some again)).symm
          rw [List.inj_on_of_nodup_map distinct (List.mem_of_find?_eq_some found)
            (types.mem_iff.2 (List.mem_of_find?_eq_some again)) same]

/-- **The rules of extension do not depend on the order of the definitions.** -/
theorem Schema.Admits.perm (admits : base.Admits definitions) : base.Admits reordered where
  keywords := fun extension member => admits.keywords extension (moved.mem_iff.2 member)
  targets := fun clause member =>
    admits.targets clause ((Definition.clausesAmong_perm moved).mem_iff.2 member)
  types := admits.types.perm ((Definition.typesAmong_perm moved).map _)
  directives := admits.directives.perm ((Definition.directivesAmong_perm moved).map _)
  extensionFields := fun found =>
    (admits.extensionFields found).perm ((Definition.clausesFor_perm moved _).flatMap_right _)
  extensionInterfaces := fun found =>
    (admits.extensionInterfaces found).perm ((Definition.clausesFor_perm moved _).flatMap_right _)
  members := fun definition member =>
    admits.members definition ((Definition.typesAmong_perm moved).mem_iff.2 member)
  interfaces := fun definition member =>
    admits.interfaces definition ((Definition.typesAmong_perm moved).mem_iff.2 member)
  references := by
    rw [← Schema.kindWith?_perm moved admits.types]
    exact fun definition member => admits.references definition (moved.mem_iff.2 member)

end Rules

/-! ## Comparing the merges -/

section Merges

variable {run other : ExtensionRun} {base whole last : Schema}
  {definitions reordered : List Definition}

/-- A type is equal to what it is when its extensions come in another order, if those that apply
directives keep theirs. -/
theorem HasExtensions.beq_of_perm (resolvers : run.resolvers = other.resolvers)
    {name : Name} {object left right : Node ObjectLikeType}
    (moved : definitions.Perm reordered)
    (directives : Definition.applyingClauses definitions name =
      Definition.applyingClauses reordered name)
    (extends_it : HasExtensions run name object (Definition.clausesFor definitions name) left)
    (again : HasExtensions other name object (Definition.clausesFor reordered name) right) :
    (SchemaType.object left == SchemaType.object right) = true := by
  have clauses := Definition.clausesFor_perm moved name
  refine Node.beq_of_value (ObjectLikeType.beq_of_perm ?_ ?_ ?_ ?_ ?_)
  · rw [extends_it.description, again.description]
  · rw [extends_it.name, again.name]
  · rw [extends_it.interfaces, again.interfaces]
    exact (clauses.flatMap_right _).append_left _
  · rw [extends_it.directives, again.directives, ← Definition.flatMap_directives_applyingClauses,
      ← Definition.flatMap_directives_applyingClauses, directives]
  · unfold NameMap.contents
    rw [extends_it.fields, again.fields, List.map_append, List.map_append,
      contents_fieldEntries resolvers]
    exact ((((clauses.flatMap_right _).map _).map _)).append_left _

variable (resolvers : run.resolvers = other.resolvers) (moved : definitions.Perm reordered)
  (directives : ∀ name, Definition.applyingClauses definitions name =
    Definition.applyingClauses reordered name)
  (admits : base.Admits definitions) (merges : Schema.IsMerge run base definitions whole)
  (again : Schema.IsMerge other base reordered last)
include resolvers moved directives admits merges again

/-- Types of the same name are equal. -/
theorem Schema.IsMerge.type_beq_of_perm {name : Name} {left right : SchemaType}
    (found : whole.types.get? name = some left) (stored : last.types.get? name = some right) :
    (left == right) = true := by
  obtain ⟨kept, none⟩ | ⟨object, extended, target, _, rfl, extension⟩ |
      ⟨definition, written, same, makes⟩ := merges.type_cases admits found
  · have unextended := Definition.clausesFor_perm moved name
    rw [none] at unextended
    rw [again.kept kept unextended.nil_eq.symm] at stored
    cases stored
    exact BEq.rfl
  · obtain ⟨final, reached, extension_again⟩ := again.object_of_base target
    rw [reached] at stored
    cases stored
    exact extension.toHasExtensions.beq_of_perm resolvers moved (directives name) extension_again
  · obtain ⟨final, reached, makes_again⟩ :=
      again.added definition ((Definition.typesAmong_perm moved).mem_iff.1 written)
    rw [OrderedMap.get?_congr _ same, stored] at reached
    cases reached
    exact (makes.agrees resolvers makes_again).2

/-- **Merges of reordered definitions are equal.** -/
theorem Schema.IsMerge.beq_of_perm : (whole == last) = true := by
  have texts : (NameMap.texts whole.types).Perm (NameMap.texts last.types) := by
    rw [merges.typeNames, again.typeNames]
    exact ((Definition.typesAmong_perm moved).map _).append_left _
  have types : (whole.types == last.types) = true := by
    refine OrderedMap.same_of_agree ?_ ?_
    · simpa [NameMap.texts, OrderedMap.keys, OrderedMap.size] using texts.length_eq
    · intro entry member
      have found := OrderedMap.get?_of_mem member
      have present : last.types.contains entry.1 = true := by
        rw [NameMap.contains_iff, ← texts.mem_iff, ← NameMap.contains_iff]
        exact OrderedMap.contains_of_get? found
      obtain ⟨type, stored⟩ := (OrderedMap.contains_iff_exists_value _ _).1 present
      exact ⟨type, stored,
        type_beq_of_perm resolvers moved directives admits merges again found stored⟩
  have added : (whole.directives == last.directives) = true := by
    refine OrderedMap.beq_of_perm ?_
    rw [merges.directives, again.directives]
    exact ((Definition.directivesAmong_perm moved).map _).append_left _
  show (whole.directives == last.directives && whole.types == last.types &&
    whole.roots == last.roots) = true
  rw [types, added, merges.roots, again.roots]
  simp

end Merges

/-! ## Extending by a document in another order -/

/-- An extension of `Link` with one field, and with or without the directive `@linked`. -/
def linkClause (field type : String) (applies : Bool) : Definition :=
  .objectExtension (.ofLocation ⟨.document 0, 0, 0⟩
    ⟨.plain "Link", [],
      if applies then [.ofLocation ⟨.document 0, 0, 0⟩ ⟨.plain "linked", []⟩] else [],
      [fieldNamed field type]⟩)

/-- The document `extend type Link @linked { tree: Tree } extend type Link { up: Link }
type Tree { root: Link }`. -/
def forwardDocument : Document where
  sources := OrderedMap.empty
  definitions :=
    [linkClause "tree" "Tree" true, linkClause "up" "Link" false,
    .type (.object (.ofLocation ⟨.document 0, 0, 0⟩
      ⟨none, .plain "Tree", [], [], [fieldNamed "root" "Link"]⟩))]

/-- The same definitions from the last to the first. -/
def backwardDocument : Document where
  sources := OrderedMap.empty
  definitions := forwardDocument.definitions.reverse

/-- **The order of the definitions does not matter.** A document can extend a schema if and only if
it can with its definitions in another order. Both then give equal schemas if the extensions that
apply directives to a type keep their order. -/
theorem Schema.extend_perm {resolvers : ResolverAssignment} {run other : Nat} {base : Schema}
    {document reordered : Document}
    (moved : document.definitions.Perm reordered.definitions) :
    ((∃ extended, (base.extend ⟨run, resolvers⟩ document).result = .ok extended) ↔
      ∃ extended, (base.extend ⟨other, resolvers⟩ reordered).result = .ok extended) ∧
    ∀ {left right},
      (∀ name, Definition.applyingClauses document.definitions name =
        Definition.applyingClauses reordered.definitions name) →
      (base.extend ⟨run, resolvers⟩ document).result = .ok left →
      (base.extend ⟨other, resolvers⟩ reordered).result = .ok right →
      (left.over base == right.over base) = true := by
  have spec := Schema.extend_spec ⟨run, resolvers⟩ base document
  have again := Schema.extend_spec ⟨other, resolvers⟩ base reordered
  constructor
  · cases result : (base.extend ⟨run, resolvers⟩ document).result with
    | ok extended =>
        rw [result] at spec
        cases repeated : (base.extend ⟨other, resolvers⟩ reordered).result with
        | ok extended_again => exact ⟨fun _ => ⟨_, rfl⟩, fun _ => ⟨_, rfl⟩⟩
        | error rejection =>
            rw [repeated] at again
            exact absurd (spec.1.perm moved) again
    | error rejection =>
        rw [result] at spec
        cases repeated : (base.extend ⟨other, resolvers⟩ reordered).result with
        | ok extended_again =>
            rw [repeated] at again
            exact absurd (again.1.perm moved.symm) spec
        | error _ =>
            constructor <;> rintro ⟨_, impossible⟩ <;> cases impossible
  · intro left right directives succeeds succeeds_again
    rw [succeeds] at spec
    rw [succeeds_again] at again
    refine Schema.IsMerge.beq_of_perm ?_ moved directives spec.1 spec.2.1 again.2.1
    rfl

theorem Schema.extend_perm_reverse :
    forwardDocument.definitions.Perm backwardDocument.definitions ∧
    (∀ name, Definition.applyingClauses forwardDocument.definitions name =
      Definition.applyingClauses backwardDocument.definitions name) ∧
    ∃ left right, (linkSchema.extend ⟨1, .none⟩ forwardDocument).result = .ok left ∧
      (linkSchema.extend ⟨2, .none⟩ backwardDocument).result = .ok right ∧
      (left.over linkSchema == right.over linkSchema) = true ∧
      ((left.over linkSchema).field? "Link" "tree").isSome = true := by
  have moved : forwardDocument.definitions.Perm backwardDocument.definitions :=
    (List.reverse_perm _).symm
  have directives (name : Name) : Definition.applyingClauses forwardDocument.definitions name =
      Definition.applyingClauses backwardDocument.definitions name := by
    show List.filter _ (List.filter _ [_, _]) = List.filter _ (List.filter _ [_, _])
    by_cases link : (Name.plain "Link" == name) = true
    · simp [Node.ofLocation, link]
    · simp [Node.ofLocation, link]
  exact ⟨moved, directives, _, _, rfl, rfl,
    (Schema.extend_perm moved).2 directives rfl rfl, rfl⟩

end SchemaGraft
