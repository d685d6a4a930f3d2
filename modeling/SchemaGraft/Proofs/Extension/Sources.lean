import SchemaGraft.Proofs.Extension.Grounds
import SchemaGraft.Proofs.Reading.Documents
import SchemaGraft.Proofs.Reports
import SchemaGraft.Proofs.SchemaPlaces

/-!
# The sources of schemas

A schema carries the files that it was read from. A type may be put together from several of them,
and its parts keep pointing to where they come from. The sources keep up with that: whatever place
is stored in a schema, its file is there (`Schema.IsSourced`).

So a rejection can always be shown. It is about a place of the document and perhaps about an earlier
definition, in the document or in the schema. With the files of both, nothing of it is left out
(`Rejection.CanBeShown`).
-/

set_option autoImplicit false

namespace SchemaGraft

/-! ## Sources of schemas -/

/-- A place is known, and its file is among some sources. -/
def IsSourced (sources : SourceMap) (place : Option Location) : Prop :=
  ∃ location, place = some location ∧ sources.contains location.file = true

/-- All places that are stored in a schema are known and lie in its files. -/
def Schema.IsSourced (schema : Schema) : Prop :=
  ∀ place ∈ schema.places, SchemaGraft.IsSourced schema.sources place

section Sources

variable {limits : ReadingLimits} {file : FileId} {source : SourceFile}

/-- The files of a schema and a document that was read: one more file, or one anew. -/
theorem Schema.contains_sourcesWith_parse (base : Schema) (other : FileId) :
    (base.sourcesWith (Document.parse limits file source).document).contains other =
      (file == other || base.sources.contains other) :=
  OrderedMap.contains_insert base.sources file other source

theorem Schema.get?_sourcesWith_parse (base : Schema) :
    (base.sourcesWith (Document.parse limits file source).document).get? file = some source :=
  OrderedMap.get?_insert_self base.sources file source

/-- What is stored in a schema can be shown with the files of a document besides. -/
theorem Schema.IsSourced.sourcesWith {base : Schema} (sourced : base.IsSourced) :
    ∀ place ∈ base.places,
      SchemaGraft.IsSourced (base.sourcesWith (Document.parse limits file source).document)
        place := by
  intro place member
  obtain ⟨location, known, contained⟩ := sourced place member
  refine ⟨location, known, ?_⟩
  rw [Schema.contains_sourcesWith_parse, contained, Bool.or_true]

theorem LiesIn.isSourced {place : Option Location} (lies : LiesIn file place) (base : Schema) :
    SchemaGraft.IsSourced (base.sourcesWith (Document.parse limits file source).document)
      place := by
  cases place with
  | none => cases lies
  | some location =>
      refine ⟨location, rfl, ?_⟩
      have same : location.file = file := Option.some.inj lies
      rw [Schema.contains_sourcesWith_parse, same, beq_self_eq_true, Bool.true_or]

/-- Carrying out the plan of a document that was read keeps a schema sourced. -/
theorem Schema.isSourced_of_carryOut {run : ExtensionRun} {base merged : Schema}
    {plan : ExtensionPlan} (sourced : base.IsSourced)
    (planned : ExtensionPlan.ofDefinitions base
      (Document.parse limits file source).document.definitions = .ok plan)
    (succeeds : (base.carryOut run (Document.parse limits file source).document plan).result =
      .ok merged) : merged.IsSourced := by
  have carried := Schema.carryOut_spec run (ExtensionPlan.isFor_of_ofDefinitions planned)
  rw [succeeds] at carried
  unfold Schema.IsSourced
  rw [carried.2.2]
  exact Schema.forall_places_carryOut planned succeeds sourced.sourcesWith fun place member =>
    (Document.liesIn_of_mem_places place member).isSourced base

end Sources

theorem Schema.isSourced_empty : Schema.empty.IsSourced :=
  fun _ member => absurd member List.not_mem_nil

/-- **Every schema that texts lead to has the files of all that is in it.** -/
theorem Schema.ReachableByReading.isSourced {schema : Schema}
    (reachable : schema.ReachableByReading) : schema.IsSourced := by
  induction reachable with
  | builtIn =>
      rw [Schema.builtIn, Schema.ofDocument]
      split
      · exact Schema.isSourced_empty
      · rename_i plan planned
        split
        · exact Schema.isSourced_empty
        · rename_i schema succeeds
          exact Schema.isSourced_of_carryOut Schema.isSourced_empty planned succeeds
  | extend _ _ succeeds sourced =>
      obtain ⟨plan, planned, ⟨_, same⟩ | carried⟩ := Schema.exists_plan_of_extend succeeds
      · rwa [same]
      · exact Schema.isSourced_of_carryOut sourced planned carried

/-! ## Places of rejections -/

section Rejections

variable {P : Option Location → Prop} {base : Schema} {definitions : List Definition}

/-- What a document refers to has places in the document. -/
theorem Schema.Refers.hasPlaces {reference : Reference}
    (refers : base.Refers definitions reference)
    (written : ∀ definition ∈ definitions, ∀ place ∈ definition.places, P place) :
    reference.HasPlaces P := by
  cases refers with
  | extension member _ _ listed => exact Node.hasPlaces_clauseReferences (written _ member) _ listed
  | type member listed => exact TypeDefinition.hasPlaces_references (written _ member) _ listed
  | directive member listed =>
      have arguments := (List.forall_mem_cons.1 (List.forall_mem_cons.1 (written _ member)).2).2
      exact hasPlaces_inputReferences arguments _ listed

theorem place_interfaceMentions {location : Option Location} {interfaces : List Name}
    (here : P location) (written : ∀ place ∈ interfaces.map Name.location, P place) :
    ∀ mention ∈ interfaceMentions location interfaces, P mention.location := by
  rw [List.forall_mem_map] at written
  exact List.forall_mem_map.2 fun interface member => or_place (written interface member) here

/-- Where nodes lie is among the places of the nodes. -/
theorem place_of_node {α : Type} {inside : α → List (Option Location)} {nodes : List (Node α)}
    (written : ∀ place ∈ nodes.flatMap (Node.places inside), P place) :
    ∀ node ∈ nodes, P node.location :=
  fun node member => List.forall_mem_flatMap.1 written node member _ List.mem_cons_self

theorem TypeDefinition.place_mentions {definition : TypeDefinition}
    (written : ∀ place ∈ definition.places, P place) :
    (∀ mention ∈ definition.interfaces, P mention.location) ∧
      ∀ mention ∈ definition.members, P mention.location := by
  have none : ∀ mention ∈ ([] : List Mention), P mention.location :=
    fun _ member => absurd member List.not_mem_nil
  cases definition with
  | scalar definition | union definition => exact ⟨none, none⟩
  | object definition | interface definition =>
      simp only [places, Node.places, ObjectLikeDefinition.places, List.forall_mem_cons,
        List.forall_mem_append] at written
      obtain ⟨itself, _, ⟨_, interfaces⟩, fields⟩ := written
      exact ⟨place_interfaceMentions itself interfaces,
        List.forall_mem_map.2 (place_of_node fields)⟩
  | enum definition =>
      simp only [places, Node.places, EnumDefinition.places, List.forall_mem_cons,
        List.forall_mem_append] at written
      obtain ⟨_, _, _, values⟩ := written
      exact ⟨none, List.forall_mem_map.2 (place_of_node values)⟩
  | inputObject definition =>
      simp only [places, Node.places, InputObjectDefinition.places, List.forall_mem_cons,
        List.forall_mem_append] at written
      obtain ⟨_, _, _, fields⟩ := written
      exact ⟨none, List.forall_mem_map.2 (place_of_node fields)⟩

/-- What a document adds to a type has places in the document. -/
theorem Schema.Grows.place_new {growth : TypeGrowth} (grows : base.Grows definitions growth)
    (written : ∀ definition ∈ definitions, ∀ place ∈ definition.places, P place) :
    (∀ mention ∈ growth.newInterfaces, P mention.location) ∧
      ∀ mention ∈ growth.newMembers, P mention.location := by
  cases grows with
  | added member => exact TypeDefinition.place_mentions (written _ member)
  | @extended name object found own =>
      have clauses : ∀ clause ∈ Definition.clausesFor definitions name,
          (∀ mention ∈ interfaceMentions clause.location clause.value.interfaces,
            P mention.location) ∧
            ∀ mention ∈ fieldMentions clause.value.fields, P mention.location := by
        intro clause listed
        rw [Definition.mem_clausesFor_iff, Definition.mem_clausesAmong_iff] at listed
        have written := written _ listed.1
        simp only [Definition.places, Node.places, ObjectExtension.places, List.forall_mem_cons,
          List.forall_mem_append] at written
        obtain ⟨itself, _, ⟨_, interfaces⟩, fields⟩ := written
        exact ⟨place_interfaceMentions itself interfaces,
          List.forall_mem_map.2 (place_of_node fields)⟩
      exact ⟨List.forall_mem_flatMap.2 fun clause listed => (clauses clause listed).1,
        List.forall_mem_flatMap.2 fun clause listed => (clauses clause listed).2⟩

/-- What a type had has places in the schema. -/
theorem Schema.Grows.place_members {growth : TypeGrowth} (grows : base.Grows definitions growth)
    (kept : ∀ place ∈ base.places, P place) : ∀ mention ∈ growth.members, P mention.location := by
  cases grows with
  | added member => exact fun _ member => absurd member List.not_mem_nil
  | @extended name object found own =>
      have inside := Schema.forall_places_types kept found
      simp only [SchemaType.places, Node.places, ObjectLikeType.places, List.forall_mem_cons,
        List.forall_mem_append] at inside
      obtain ⟨_, _, _, fields⟩ := inside
      refine List.forall_mem_map.2 fun entry member => ?_
      exact fields _ (List.mem_flatMap.2
        ⟨entry, member, List.mem_cons_of_mem _ List.mem_cons_self⟩)

/-- **The place of a rejection is in the document.** -/
theorem Rejection.IsGenuine.place_location {rejection : Rejection}
    (genuine : rejection.IsGenuine base definitions)
    (written : ∀ definition ∈ definitions, ∀ place ∈ definition.places, P place) :
    P rejection.location := by
  have itself : ∀ definition ∈ definitions, P definition.location :=
    fun definition member => written definition member _ definition.location_mem_places
  cases rejection with
  | typeAlreadyExists name location previous =>
      obtain ⟨before, definition, after, rfl, _, rfl, _⟩ := genuine
      exact itself (.type definition) (by simp)
  | unknownTargetType name location =>
      obtain ⟨_, definition, member, _, rfl⟩ := genuine
      exact itself definition member
  | invalidExtensionTarget name location found =>
      obtain ⟨_, _, definition, member, _, rfl, _⟩ := genuine
      exact itself definition member
  | duplicateField type field location previous =>
      obtain ⟨growth, grows, _, before, after, split, _⟩ := genuine
      exact (grows.place_new written).2 ⟨field, location⟩ (by simp [split])
  | duplicateInterface type interface location =>
      obtain ⟨growth, grows, _, before, after, split, _⟩ := genuine
      exact (grows.place_new written).1 ⟨interface, location⟩ (by simp [split])
  | unknownType name site location =>
      obtain ⟨⟨expected, refers⟩, _⟩ := genuine
      exact (refers.hasPlaces written).itself
  | directiveRedefinition name location previous =>
      obtain ⟨before, definition, after, rfl, _, rfl, _⟩ := genuine
      exact itself (.directive definition) (by simp)
  | unexpectedKind name site location found expected =>
      obtain ⟨refers, _⟩ := genuine
      exact (refers.hasPlaces written).itself

/-- **The place of an earlier definition is in the schema or the document.** -/
theorem Rejection.IsGenuine.place_previous {rejection : Rejection}
    (genuine : rejection.IsGenuine base definitions) (kept : ∀ place ∈ base.places, P place)
    (written : ∀ definition ∈ definitions, ∀ place ∈ definition.places, P place) :
    ∀ previous ∈ rejection.previous?, P previous := by
  cases rejection with
  | typeAlreadyExists name location previous =>
      rintro _ ⟨⟩
      obtain ⟨before, definition, after, rfl, _, _,
          ⟨type, found, rfl⟩ | ⟨_, earlier, listed, _, rfl⟩⟩ :=
        genuine
      · exact Schema.forall_places_types kept found _ type.location_mem_places
      · have member := Definition.mem_typesAmong_iff.1 listed
        exact written _ (List.mem_append_left _ member) _
          (Definition.type earlier).location_mem_places
  | duplicateField type field location previous =>
      rintro _ ⟨⟩
      obtain ⟨growth, grows, _, before, after, split, earlier, listed, _, rfl⟩ := genuine
      rcases List.mem_append.1 listed with listed | listed
      · exact grows.place_members kept earlier listed
      · exact (grows.place_new written).2 earlier (by simp [split, listed])
  | directiveRedefinition name location previous =>
      rintro _ ⟨⟩
      obtain ⟨before, definition, after, rfl, _, _,
          ⟨directive, found, rfl⟩ | ⟨earlier, listed, _, rfl⟩⟩ :=
        genuine
      · obtain ⟨key, stored, _⟩ := (OrderedMap.get?_eq_some_iff _ _ _).1 found
        have directives := (List.forall_mem_append.1 (List.forall_mem_append.1 kept).1).1
        exact directives _ (List.mem_flatMap.2
          ⟨_, stored, List.mem_cons_of_mem _ List.mem_cons_self⟩)
      · have member := Definition.mem_directivesAmong_iff.1 listed
        exact written _ (List.mem_append_left _ member) _
          (Definition.directive earlier).location_mem_places
  | invalidExtensionTarget | unknownTargetType | duplicateInterface | unknownType
  | unexpectedKind => exact nofun

end Rejections

/-! ## Rejections that can be shown -/

/-- A rejection of a document of a file can be shown with the files of the schema and the document,
and as far as it concerns the document also with the file of the document alone. -/
structure Rejection.CanBeShown (file : FileId) (base : Schema) (document : Document)
    (rejection : Rejection) : Prop where
  /-- Its place is in the file of the document. -/
  inFile : LiesIn file rejection.location
  location : IsSourced (base.sourcesWith document) rejection.location
  /-- If it is about an earlier definition too, the place of that is known. -/
  previous : ∀ previous ∈ rejection.previous?, IsSourced (base.sourcesWith document) previous
  lineColumn : (rejection.diagnosis.lineColumn? (base.sourcesWith document)).isSome = true
  /-- With the files of both, every label is shown. -/
  allLabels : (rejection.diagnosis.shownLabels (base.sourcesWith document)).map Label.ofShown =
    rejection.labels
  /-- With the file of the document, the labels in this file are shown. -/
  ownLabels : (rejection.diagnosis.shownLabels document.sources).map Label.ofShown =
    rejection.labels.filter fun label => label.location.any fun location => location.file == file
  /-- What is shown is in the report. -/
  reported : ∀ sources, ((rejection.diagnosis.report sources).files.flatMap (·.labels)).Perm
    ((rejection.diagnosis.shownLabels sources).map fun label => Report.cutLine label.2)

/-- Labels are on the place of a rejection or on that of an earlier definition. -/
theorem Rejection.location_of_mem_labels {rejection : Rejection} {label : Label}
    (member : label ∈ rejection.labels) :
    label.location = rejection.location ∨ label.location ∈ rejection.previous? := by
  cases rejection <;>
    simp only [Rejection.labels, repetitionLabels, List.mem_cons, List.not_mem_nil,
      or_false] at member
  case typeAlreadyExists | duplicateField | directiveRedefinition =>
    rcases member with rfl | rfl
    · exact .inr rfl
    · exact .inl rfl
  all_goals
    subst member
    exact .inl rfl

/-- **All that a rejection is about can be shown.** -/
theorem Rejection.IsGenuine.canBeShown {base : Schema} {limits : ReadingLimits} {file : FileId}
    {source : SourceFile} {rejection : Rejection} (sourced : base.IsSourced)
    (valid : (Document.parse limits file source).errors = [])
    (genuine : rejection.IsGenuine base (Document.parse limits file source).document.definitions) :
    rejection.CanBeShown file base (Document.parse limits file source).document := by
  have written := List.forall_mem_flatMap.1 (Document.arePlaced_of_parse valid)
  have sources : ∀ definition ∈ (Document.parse limits file source).document.definitions,
      ∀ place ∈ definition.places,
        IsSourced (base.sourcesWith (Document.parse limits file source).document) place :=
    fun definition member place inside =>
      (written definition member place inside).liesIn.isSourced base
  obtain ⟨start, stop, known, boundary⟩ := genuine.place_location written
  have previous := genuine.place_previous sourced.sourcesWith sources
  have location := genuine.place_location sources
  exact
    { inFile := by
        rw [known]
        rfl
      location := location
      previous := previous
      lineColumn := by
        show (rejection.location.bind _).isSome = true
        rw [known, Option.bind_some]
        show ((OrderedMap.get? _ file).bind _).isSome = true
        rw [Schema.get?_sourcesWith_parse, Option.bind_some]
        rw [Text.lineColumn?, Option.isSome_map]
        exact boundary
      allLabels := by
        refine (Diagnosis.map_ofShown_shownLabels _ _).trans ?_
        refine List.filter_eq_self.2 fun label member => ?_
        obtain ⟨place, same, contained⟩ : IsSourced _ label.location := by
          rcases rejection.location_of_mem_labels member with same | earlier
          · exact same ▸ location
          · exact previous _ earlier
        rw [same]
        exact contained
      ownLabels := by
        refine (Diagnosis.map_ofShown_shownLabels _ _).trans ?_
        refine List.filter_congr fun label _ => ?_
        cases label.location with
        | none => rfl
        | some place =>
            refine (OrderedMap.contains_insert OrderedMap.empty file place.file source).trans ?_
            exact (Bool.or_false _).trans (Bool.beq_comm ..)
      reported := rejection.diagnosis.labels_report_perm }

/-- **The sources of schemas are complete.** Whatever texts a schema was read from, it has the files
of all places that are stored in it, and a rejection of one more text can be shown. -/
theorem Schema.isSourced_of_reading {schema : Schema} (reachable : schema.ReachableByReading) :
    schema.IsSourced ∧
      ∀ {run : ExtensionRun} {limits : ReadingLimits} {serial : Nat} {source : SourceFile}
        {rejection : Rejection}, (Document.parse limits (.document serial) source).errors = [] →
        (schema.extend run (Document.parse limits (.document serial) source).document).result =
          .error rejection →
        rejection.CanBeShown (.document serial) schema
          (Document.parse limits (.document serial) source).document := by
  refine ⟨reachable.isSourced, fun valid fails => ?_⟩
  have genuine := (Schema.rejection_of_extend reachable.reachable fails).1
  exact genuine.canBeShown reachable.isSourced valid

/-- Why a document is rejected, if it is. -/
def Schema.rejection? (base : Schema) (run : ExtensionRun) (document : Document) :
    Option Rejection :=
  match (base.extend run document).result with
  | .error rejection => some rejection
  | .ok _ => none

theorem Schema.result_of_rejection? {base : Schema} {run : ExtensionRun} {document : Document}
    {rejection : Rejection} (rejects : base.rejection? run document = some rejection) :
    (base.extend run document).result = .error rejection := by
  unfold Schema.rejection? at rejects
  split at rejects
  case h_1 fails => rw [fails, Option.some.inj rejects]
  case h_2 => cases rejects

/-- A text that gives a type of the garden a field that it has. -/
def weedSource : SourceFile := ⟨"weed.graphql", "extend type Tree { crop: Int }"⟩

/-- What is read from this text. -/
def weedParsed : ParsedDocument := Document.parse {} (.document 2) weedSource

/-- The garden is sourced, and a rejection that is about its text and a second one can be shown. -/
theorem Schema.isSourced_of_reading_weed :
    ∃ garden ∈ Schema.builtIn.afterReading gardenSource, garden.IsSourced ∧
      weedParsed.errors = [] ∧
      ∃ rejection, (garden.extend ⟨2, .none⟩ weedParsed.document).result = .error rejection ∧
        rejection.CanBeShown (.document 2) garden weedParsed.document ∧
        rejection.location = some ⟨.document 2, 19, 28⟩ ∧
        rejection.previous? = some (some ⟨.document 1, 45, 68⟩) ∧
        (rejection.diagnosis.shownLabels (garden.sourcesWith weedParsed.document)).map (·.1.file) =
          [.document 1, .document 2] ∧
        (rejection.diagnosis.shownLabels weedParsed.document.sources).map (·.1.file) =
          [.document 2] := by
  have evaluated : ∃ garden ∈ Schema.builtIn.afterReading gardenSource,
      ∃ rejection ∈ garden.rejection? ⟨2, .none⟩ weedParsed.document,
        rejection.location = some ⟨.document 2, 19, 28⟩ ∧
        rejection.previous? = some (some ⟨.document 1, 45, 68⟩) ∧
        (rejection.diagnosis.shownLabels (garden.sourcesWith weedParsed.document)).map (·.1.file) =
          [.document 1, .document 2] ∧
        (rejection.diagnosis.shownLabels weedParsed.document.sources).map (·.1.file) =
          [.document 2] := by
    rw [← BuiltIn.schema_eq, Schema.afterReading,
      Document.parse_literal _ _ gardenSource (append_eq_ofList rfl rfl)]
    decide +kernel
  obtain ⟨garden, becomes, rejection, rejects, places⟩ := evaluated
  have valid : weedParsed.errors = [] := by decide +kernel
  have fails := Schema.result_of_rejection? rejects
  obtain ⟨sourced, shown⟩ :=
    Schema.isSourced_of_reading (Schema.reachableByReading_garden becomes)
  exact ⟨garden, becomes, sourced, valid, rejection, fails, shown valid fails, places⟩

end SchemaGraft
