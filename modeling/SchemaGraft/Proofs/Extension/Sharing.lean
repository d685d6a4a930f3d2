import Mathlib.Order.Nat
import SchemaGraft.Proofs.Closure
import SchemaGraft.Session

/-!
# What a schema shares with its extensions

An extension makes few nodes anew. This module says which ones, for one extension and for any number
of them.

**One extension.** A type of the base schema is another node afterwards if and only if some clause
of the document extends it, even if the clause adds nothing. What was in it is in the new node
too: its fields and its directives come first, and they are the very nodes they were
(`Schema.Shares`).

**Many extensions.** A field that is there once is there ever after and is the very same node,
however often its type is built anew (`Schema.field?_of_extendsTo`).

**Runs.** That a node is another one can only be seen if what a run makes is told apart from what
was there before. So the number of the run must be later than those of the runs that made the base
schema (`Schema.IsBefore`). Sessions hand out numbers in this way (`Session.isBefore_of_extend`).
-/

set_option autoImplicit false

namespace SchemaGraft

/-! ## Numbers of runs -/

/-- What a schema has was made by runs with smaller numbers. -/
def Schema.IsBefore (number : Nat) (schema : Schema) : Prop :=
  ∀ type ∈ schema.types.values, ∀ {run : Nat} {part : SchemaPart},
    type.identity = .built run part → run < number

section Runs

variable {number later : Nat} {schema : Schema}

theorem Schema.isBefore_empty : Schema.empty.IsBefore number :=
  fun _ member => absurd member List.not_mem_nil

theorem Schema.IsBefore.mono (before : schema.IsBefore number) (le : number ≤ later) :
    schema.IsBefore later :=
  fun type member _ _ made => (before type member made).trans_le le

theorem Schema.IsBefore.lt_of_get? (before : schema.IsBefore number) {name : Name}
    {type : SchemaType} (found : schema.types.get? name = some type) {run : Nat}
    {part : SchemaPart} (made : type.identity = .built run part) : run < number := by
  obtain ⟨key, stored, _⟩ := (OrderedMap.get?_eq_some_iff _ _ _).1 found
  exact before type (List.mem_map_of_mem stored) made

/-- What a run makes comes before every later run. -/
theorem Schema.IsMerge.isBefore {run : ExtensionRun} {base merged : Schema}
    {definitions : List Definition} (admits : base.Admits definitions)
    (isMerge : Schema.IsMerge run base definitions merged) (before : base.IsBefore later)
    (numbered : run.number < later) : merged.IsBefore later := by
  intro type member other part made
  obtain ⟨⟨name, _⟩, listed, rfl⟩ := List.mem_map.1 member
  obtain ⟨kept, _⟩ | ⟨object, extended, _, _, rfl, extension⟩ | ⟨definition, _, _, makes⟩ :=
    isMerge.type_cases admits (OrderedMap.get?_of_mem listed)
  · exact before.lt_of_get? kept made
  · rw [SchemaType.identity, extension.identity] at made
    cases made
    exact numbered
  · rw [makes.identity] at made
    cases made
    exact numbered

/-- What is built in was made by the run of number zero. -/
theorem Schema.isBefore_builtIn : Schema.builtIn.IsBefore 1 := by
  rw [Schema.builtIn, Schema.ofDocument]
  split
  · exact Schema.isBefore_empty
  · rename_i planned
    have carried := Schema.carryOut_spec ⟨0, .none⟩ (ExtensionPlan.isFor_of_ofDefinitions planned)
    split
    · exact Schema.isBefore_empty
    · rename_i result
      rw [result] at carried
      exact carried.2.1.isBefore carried.1 Schema.isBefore_empty Nat.zero_lt_one

/-- An extension comes before every run with a number that is later than its own. -/
theorem Schema.isBefore_of_extend {run : ExtensionRun} {base : Schema} {document : Document}
    {extended : ExtendedSchema} (succeeds : (base.extend run document).result = .ok extended)
    (before : base.IsBefore later) (numbered : run.number < later) :
    (extended.over base).IsBefore later := by
  obtain ⟨admits, isMerge⟩ := Schema.merged_of_extended succeeds
  exact isMerge.isBefore admits before numbered

end Runs

/-! ## Numbers in a session -/

namespace Session

theorem next_resolver (session : Session) (isFresh : Bool) (label : String) :
    session.next ≤ (session.resolver isFresh label).2.next := by
  unfold resolver
  split
  · exact le_rfl
  · cases isFresh <;> exact Nat.le_succ _

theorem next_assignFields (isFresh : Bool) (fields : List (Name × Name × String)) :
    ∀ (session : Session) (assignment : ResolverAssignment),
      session.next ≤ (session.assignFields isFresh assignment fields).2.next := by
  induction fields with
  | nil => exact fun _ _ => le_rfl
  | cons field rest ih =>
      intro session assignment
      exact (session.next_resolver isFresh field.2.2).trans (ih _ _)

theorem next_assign (session : Session) (request : ExtensionRequest) :
    session.next ≤ (session.assign request).2.next := by
  have assigned := next_assignFields request.freshResolvers request.fieldResolvers session .none
  unfold assign
  cases request.fallbackResolver with
  | none => exact assigned
  | some label => exact assigned.trans (next_resolver _ _ label)

theorem next_read (session : Session) (request : ExtensionRequest) :
    session.next ≤ (session.read request).2.next := by
  unfold read
  cases request.source with
  | none => exact le_rfl
  | some source => exact Nat.le_succ _

/-- **A session numbers its runs one after the other.** What an extension gives was made by runs
whose numbers have been handed out, if that holds of the schema it extends. -/
theorem isBefore_of_extend {session : Session} {request : ExtensionRequest}
    (before : request.base.schema.IsBefore session.next) {handle : SchemaHandle}
    {events : List Event} (answer : (session.extend request).1 = .extended handle events) :
    handle.schema.IsBefore (session.extend request).2.next := by
  have numbered := (session.next_read request).trans ((session.read request).2.next_assign request)
  have kept := (before.mono numbered).mono (Nat.le_succ _)
  unfold Session.extend at answer ⊢
  dsimp only [Session.fresh, Session.handle] at answer ⊢
  revert answer
  cases (session.read request).1.filter fun parsed =>
      !parsed.isValid && !request.acceptsMistakes with
  | some parsed => exact nofun
  | none =>
      dsimp only
      cases succeeds : (request.base.schema.extend
          ⟨((session.read request).2.assign request).2.next,
            ((session.read request).2.assign request).1⟩
          ((session.read request).1.elim Document.empty (·.document))).result with
      | error rejection => exact nofun
      | ok outcome =>
          have made := Schema.isBefore_of_extend succeeds kept (Nat.lt_succ_self _)
          cases outcome with
          | unchanged =>
              rintro ⟨⟩
              exact made
          | changed schema =>
              rintro ⟨⟩
              exact made.mono (Nat.le_succ _)

end Session

/-! ## One extension -/

/-- How a schema shares its nodes with what the definitions of a document make of it. -/
structure Schema.Shares (definitions : List Definition) (base extended : Schema) : Prop where
  /-- A type is another node if and only if some clause extends it. -/
  types : ∀ {name before}, base.types.get? name = some before →
    ∃ after, extended.types.get? name = some after ∧
      (before.isSame after = false ↔ ∃ clause, .objectExtension clause ∈ definitions ∧
        (clause.value.name == name) = true)
  /-- A type that no clause extends is as it was. -/
  untouched : ∀ {name before}, base.types.get? name = some before →
    (∀ clause, .objectExtension clause ∈ definitions → (clause.value.name == name) = false) →
    extended.types.get? name = some before
  /-- A type that some clause extends has the fields and directives that it had at their places. -/
  rebuilt : ∀ {name clause}, .objectExtension clause ∈ definitions →
    (clause.value.name == name) = true →
    ∃ before after, base.types.get? name = some (.object before) ∧
      extended.types.get? name = some (.object after) ∧
      before.value.fields.entries <+: after.value.fields.entries ∧
      before.value.directives <+: after.value.directives
  /-- The directives that were defined stay as they were at their places. -/
  directives : base.directives.entries <+: extended.directives.entries

section Extension

variable {run : ExtensionRun} {base merged : Schema} {definitions : List Definition}

/-- A type has clauses if and only if one of the definitions is a clause for it. -/
theorem Definition.clausesFor_ne_nil_iff {name : Name} :
    Definition.clausesFor definitions name ≠ [] ↔
      ∃ clause, .objectExtension clause ∈ definitions ∧ (clause.value.name == name) = true := by
  rw [ne_eq, List.eq_nil_iff_forall_not_mem]
  simp only [Definition.mem_clausesFor_iff, Definition.mem_clausesAmong_iff, not_forall, not_not]

/-- What an extension has of a type comes after what the type had. -/
theorem HasExtensions.keeps {key : Name} {before after : Node ObjectLikeType}
    {clauses : List (Node ObjectExtension)} (has : HasExtensions run key before clauses after) :
    before.value.fields.entries <+: after.value.fields.entries ∧
      before.value.directives <+: after.value.directives :=
  ⟨⟨_, has.fields.symm⟩, ⟨_, has.directives.symm⟩⟩

theorem SchemaType.isSame_refl (type : SchemaType) : type.isSame type = true := by
  cases type <;> exact beq_self_eq_true _

/-- What a run makes of a type is another node than what there was before the run. -/
theorem IsExtensionOf.isSame_eq_false {key : Name} {before after : Node ObjectLikeType}
    {clauses : List (Node ObjectExtension)} (extension : IsExtensionOf run key before clauses after)
    (earlier : ∀ {number part}, before.identity = .built number part → number < run.number) :
    (SchemaType.object before).isSame (.object after) = false := by
  refine beq_eq_false_iff_ne.2 fun same => ?_
  rw [extension.identity] at same
  exact absurd (earlier same) (Nat.lt_irrefl _)

/-- **A merge shares all nodes but those of the types that are extended.** -/
theorem Schema.IsMerge.shares (admits : base.Admits definitions)
    (isMerge : Schema.IsMerge run base definitions merged) (before : base.IsBefore run.number) :
    Schema.Shares definitions base merged := by
  have target : ∀ {name}, Definition.clausesFor definitions name ≠ [] →
      ∃ object, base.types.get? name = some (.object object) := by
    intro name targeted
    obtain ⟨clause, listed, same⟩ := Definition.clausesFor_ne_nil_iff.1 targeted
    obtain ⟨object, found⟩ := admits.targets clause (Definition.mem_clausesAmong_iff.2 listed)
    exact ⟨object, OrderedMap.get?_congr _ same ▸ found⟩
  refine ⟨?types, ?untouched, ?rebuilt, ⟨_, isMerge.directives.symm⟩⟩
  case types =>
    intro name type found
    rw [← Definition.clausesFor_ne_nil_iff]
    by_cases none : Definition.clausesFor definitions name = []
    · exact ⟨type, isMerge.kept found none, by simp [none, SchemaType.isSame_refl]⟩
    · obtain ⟨object, same⟩ := target none
      rw [found] at same
      cases same
      obtain ⟨extended, stored, extension⟩ := isMerge.extended found none
      have other := extension.isSame_eq_false fun made => before.lt_of_get? found made
      exact ⟨.object extended, stored, by simp [none, other]⟩
  case untouched =>
    intro name type found untargeted
    refine isMerge.kept found (by_contra fun targeted => ?_)
    obtain ⟨clause, listed, same⟩ := Definition.clausesFor_ne_nil_iff.1 targeted
    rw [untargeted clause listed] at same
    cases same
  case rebuilt =>
    intro name clause listed same
    obtain ⟨object, found⟩ := target (Definition.clausesFor_ne_nil_iff.2 ⟨clause, listed, same⟩)
    obtain ⟨extended, stored, has⟩ := isMerge.object_of_base found
    exact ⟨object, extended, found, stored, has.keeps⟩

end Extension

/-! ## Many extensions -/

/-- Some run makes one schema of another with some document. -/
def Schema.ExtendsTo (base extended : Schema) : Prop :=
  ∃ (run : ExtensionRun) (document : Document) (outcome : ExtendedSchema),
    (base.extend run document).result = .ok outcome ∧ outcome.over base = extended

/-- The value of a key stays what it is when entries are added behind those there are. -/
theorem OrderedMap.get?_of_prefix {ν : Type} {map longer : NameMap ν}
    (longer_of : map.entries <+: longer.entries) {key : Name} {value : ν}
    (found : map.get? key = some value) : longer.get? key = some value := by
  obtain ⟨stored, listed, same⟩ := (OrderedMap.get?_eq_some_iff _ _ _).1 found
  exact (OrderedMap.get?_eq_some_iff _ _ _).2 ⟨stored, longer_of.subset listed, same⟩

/-- **A merge has the fields that there were**, as the nodes they were. -/
theorem Schema.IsMerge.field?_of_base {run : ExtensionRun} {base merged : Schema}
    {definitions : List Definition} (admits : base.Admits definitions)
    (isMerge : Schema.IsMerge run base definitions merged) {type field : String}
    {node : Node Field} (found : base.field? type field = some node) :
    merged.field? type field = some node := by
  simp only [Schema.field?, Schema.type?, Option.bind_eq_bind, Option.bind_eq_some_iff] at found ⊢
  obtain ⟨stored, known, fields, itsFields, here⟩ := found
  by_cases none : Definition.clausesFor definitions (.plain type) = []
  · exact ⟨stored, isMerge.kept known none, fields, itsFields, here⟩
  · obtain ⟨clause, listed, same⟩ := Definition.clausesFor_ne_nil_iff.1 none
    obtain ⟨object, target⟩ := admits.targets clause (Definition.mem_clausesAmong_iff.2 listed)
    rw [OrderedMap.get?_congr _ same, known, Option.some.injEq] at target
    subst target
    obtain ⟨extended, known', has⟩ := isMerge.object_of_base known
    rw [SchemaType.fields?, Option.some.injEq] at itsFields
    subst itsFields
    exact ⟨_, known', _, rfl, OrderedMap.get?_of_prefix has.keeps.1 here⟩

theorem Schema.ExtendsTo.field?_eq {base extended : Schema} (extends_to : base.ExtendsTo extended)
    {type field : String} {node : Node Field} (found : base.field? type field = some node) :
    extended.field? type field = some node := by
  obtain ⟨run, document, outcome, succeeds, rfl⟩ := extends_to
  obtain ⟨admits, isMerge⟩ := Schema.merged_of_extended succeeds
  exact isMerge.field?_of_base admits found

/-- A field stays the node it is along every chain of extensions. -/
theorem Schema.field?_of_chain {chain : Nat → Schema} {last : Nat}
    (steps : ∀ index < last, (chain index).ExtendsTo (chain (index + 1))) {first later : Nat}
    (le : first ≤ later) (within : later ≤ last) {type field : String} {node : Node Field}
    (found : (chain first).field? type field = some node) :
    (chain later).field? type field = some node := by
  induction later, le using Nat.le_induction with
  | base => exact found
  | succ later _ ih =>
      exact (steps later within).field?_eq (ih (Nat.le_of_succ_le within))

/-- **Sharing is exact.** An extension makes the types anew that some clause extends and no others,
and keeps all else that there was; so a field is the same node in all later schemas of a chain. -/
theorem Schema.shares_of_extend :
    (∀ {run : ExtensionRun} {base : Schema} {document : Document} {extended : ExtendedSchema},
      base.IsBefore run.number → (base.extend run document).result = .ok extended →
      Schema.Shares document.definitions base (extended.over base)) ∧
    ∀ {chain : Nat → Schema} {last : Nat},
      (∀ index < last, (chain index).ExtendsTo (chain (index + 1))) →
      ∀ {first later : Nat}, first ≤ later → later ≤ last →
      ∀ {type field : String} {node : Node Field},
        (chain first).field? type field = some node →
        (chain later).field? type field = some node := by
  constructor
  · intro run base document extended before succeeds
    have spec := Schema.extend_spec run base document
    rw [succeeds] at spec
    exact spec.2.1.shares spec.1 before
  · exact Schema.field?_of_chain

/-- The type that `treeDocument` extends is another node afterwards, and its field is not. -/
theorem Schema.shares_of_extend_tree :
    ∃ extended, (linkSchema.extend ⟨1, .none⟩ treeDocument).result = .ok extended ∧
      linkSchema.IsBefore 1 ∧
      Schema.Shares treeDocument.definitions linkSchema (extended.over linkSchema) ∧
      (linkSchema.rebuiltTypes (extended.over linkSchema)).map (·.text) = ["Link"] ∧
      ∃ node, linkSchema.field? "Link" "next" = some node ∧
        (extended.over linkSchema).field? "Link" "next" = some node := by
  obtain ⟨extended, succeeds, rebuilt⟩ : ∃ extended,
      (linkSchema.extend ⟨1, .none⟩ treeDocument).result = .ok extended ∧
      (linkSchema.rebuiltTypes (extended.over linkSchema)).map (·.text) = ["Link"] :=
    ⟨_, rfl, rfl⟩
  have before : linkSchema.IsBefore 1 := by
    intro type member run part made
    obtain rfl := List.mem_singleton.1 member
    cases made
    exact Nat.zero_lt_one
  have shares := Schema.shares_of_extend.1 before succeeds
  have steps : ∀ index < 1, (if index = 0 then linkSchema else extended.over linkSchema).ExtendsTo
      (if index + 1 = 0 then linkSchema else extended.over linkSchema) := by
    intro index first
    rw [Nat.lt_one_iff.1 first]
    exact ⟨⟨1, .none⟩, treeDocument, extended, succeeds, rfl⟩
  obtain ⟨node, found⟩ : ∃ node, linkSchema.field? "Link" "next" = some node := ⟨_, rfl⟩
  have kept := Schema.shares_of_extend.2 steps (Nat.zero_le 1) le_rfl found
  exact ⟨extended, succeeds, before, shares, rebuilt, node, found, kept⟩

end SchemaGraft
