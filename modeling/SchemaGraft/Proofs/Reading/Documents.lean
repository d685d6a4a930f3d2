import SchemaGraft.Document.Parse
import SchemaGraft.Proofs.Reading.Definitions

/-!
# Documents that were read without a problem

**Main result.** If a text is read without a problem, everything in its tree that tells something
has its counterpart in the document, in the same order (`Document.readsAll_of_parse`). What a
definition leaves out are arguments and fields of object values without a value.
-/

set_option autoImplicit false

namespace SchemaGraft

open SchemaGraft.Tree

namespace Grammar

open State

variable (file : FileId) {before : State → Prop} (left limit : Nat)

/-! ## Selections -/

theorem yields_fragmentName :
    Yields before fragmentName (Branched .fragmentName (Single (ReadsName file))) :=
  (Yields.of_branch isAhead_anywhere
    (.of_choose (.of_choose (.of_report _) (yields_name file)) (.of_report _))).anywhere

theorem yields_typeCondition : Yields before typeCondition Anything := by
  have word : Yields Anywhere (choose (isAtText "on") take (report .onExpected)) Nothing :=
    .of_required (.take_isAtText (by simp))
  have type : Yields Anywhere
      (choose (isAt .name) namedType (report .typeConditionNameExpected)) Anything :=
    .of_choose (yields_namedType .builtIn fun _ here => here.2).anything (.of_report _)
  exact (Yields.of_branch isAhead_anywhere (.of_choose
    (.sequence_silent word.anywhere (.sequence_last type)) (.of_report _))).anywhere.anything

/-- A name before a colon. -/
def IsAtAlias (state : State) : Prop := state.isAt .name = true ∧ isBeforeColon state = true

theorem isAhead_isAtAlias : IsAhead IsAtAlias :=
  isAhead_of_isSettled (fun _ _ here => isSettled_of_isAt here.1 rfl)
    fun state other current upcoming here => by
      rwa [IsAtAlias, isAt, kind?, isBeforeColon, following?, ← current, ← upcoming]

/-- Behind the name of an alias comes its colon. -/
theorem isInside_name {state : State} (live : state.IsLive) (here : IsAtAlias state)
    (clean : (name state).faults = []) : (name state).IsInside := by
  have settled := isSettled_of_isAt here.1 rfl
  have same : name state = branch .name (bump .identifier) state := by simp [name, choose, here.1]
  rw [same] at clean ⊢
  have clean' : (bump .identifier state.opened).faults = [] := clean
  have follows : state.opened.following? = state.following? := by
    rw [settled.opened_eq]
    simp [following?]
  have inside : state.opened.IsInside := by
    have inside := isInside_of_isAt here.1 (by simp)
    rw [settled.opened_eq]
    simpa [IsInside, isAt, kind?] using inside
  have opened := live.opened ((IsSteady.bump _).faults_of clean')
  have colon := here.2
  rw [isBeforeColon, ← follows, Option.any_eq_true] at colon
  obtain ⟨token, next, colon⟩ := colon
  rw [beq_iff_eq] at colon
  exact opened.isInside_bump inside clean' next fun _ => ⟨by rw [colon]; rfl, by rw [colon]; simp⟩

/-- The name and the colon of an alias. -/
theorem yields_alias : Yields IsAtAlias (sequence [name, take]) Anything where
  toIsSteady := by
    have named : Yields Anywhere name (Single (ReadsName .builtIn)) := yields_name .builtIn
    exact named.toIsSteady.andThen .take
  reads state here live clean := by
    have named : Yields Anywhere name (Single (ReadsName .builtIn)) := yields_name .builtIn
    have clean' : (name state).faults = [] := IsSteady.take.faults_of clean
    obtain ⟨goes_on, trees, told, _⟩ := named.reads state trivial live clean'
    obtain ⟨goes_on', _, told', rfl⟩ :=
      (Yields.take_inside).reads _ (isInside_name live here clean') goes_on clean
    exact ⟨goes_on', trees, told'.trans told, trivial⟩

/-- A field may have an alias before its name. -/
theorem yields_fieldSelection {selections : Production}
    (each : Yields (fun state => state.isAt .leftBrace = true) selections Anything) :
    Yields (fun state => state.isAt .name = true) (fieldSelection left selections) Anything := by
  have alias_ : Yields (fun state => state.isAt .name = true)
      (whenever isBeforeColon (branch .alias (sequence [name, take]))) Anything :=
    .of_choose (Yields.of_branch isAhead_isAtAlias yields_alias).anything Yields.nothing.anything
  exact (Yields.of_branch (isAhead_isAt rfl) (.sequence_cons alias_
    (.sequence_cons (yields_name .builtIn)
      (.sequence_cons (.of_whenAt (yields_arguments .builtIn false left))
        (.sequence_cons (yields_directives .builtIn false left)
          (.sequence_last (.of_whenAt each))))))).anything

/-- A fragment by its name. -/
theorem yields_fragmentSpread :
    Yields (fun state => state.isAt .spread = true) (fragmentSpread left) Anything := by
  have spread : Yields Anywhere (choose (isAt .name) fragmentName (report .nameExpected))
      Anything :=
    .of_choose (yields_fragmentName .builtIn).anything (.of_report _)
  exact (Yields.of_branch (isAhead_isAt rfl) (.sequence_silent (.take_isAt (by simp))
    (.sequence_cons spread
      (.sequence_last (yields_directives .builtIn false left))))).anything

/-- A fragment in place. -/
theorem yields_inlineFragment {selections : Production}
    (each : Yields (fun state => state.isAt .leftBrace = true) selections Anything) :
    Yields (fun state => state.isAt .spread = true) (inlineFragment left selections) Anything := by
  have content : Yields Anywhere
      (choose (isAt .leftBrace) selections (report .inlineSelectionSetExpected)) Anything :=
    .of_required each
  exact (Yields.of_branch (isAhead_isAt rfl) (.sequence_silent (.take_isAt (by simp))
    (.sequence_cons (.of_whenAt yields_typeCondition)
      (.sequence_cons (yields_directives .builtIn false left)
        (.sequence_last content))))).anything

theorem yields_spreadSelection {selections : Production}
    (each : Yields (fun state => state.isAt .leftBrace = true) selections Anything) :
    Yields (fun state => state.isAt .spread = true) (spreadSelection left selections)
      Anything := by
  refine .of_forall fun state => ?_
  cases follows : state.following? with
  | none => exact ⟨reject .fragmentOrSpreadExpected, Anywhere,
      by simp [spreadSelection, follows, reject], .of_reject _, fun _ _ => trivial⟩
  | some token =>
      by_cases named : (token.kind == .name && token.text != "on") = true
      · exact ⟨fragmentSpread left, _, by simp only [spreadSelection, follows, named, if_true],
          yields_fragmentSpread left, fun here _ => here⟩
      · by_cases inline :
            (token.kind == .name || token.kind == .atSign || token.kind == .leftBrace) = true
        · exact ⟨inlineFragment left selections, _,
            by simp only [spreadSelection, follows, named, inline, if_true]; rfl,
            yields_inlineFragment left each, fun here _ => here⟩
        · have never : Yields Anywhere (report .fragmentOrSpreadExpected) fun _ => False :=
            .of_report _
          exact ⟨fun state => take (report .fragmentOrSpreadExpected state), Anywhere,
            by simp only [spreadSelection, follows, named, inline]; rfl,
            never.never_then .take_inside, fun _ _ => trivial⟩

theorem yields_selectionSet :
    Yields (fun state => state.isAt .leftBrace = true) (selectionSet left) Anything := by
  induction left with
  | zero =>
      have never : Yields (fun state => state.isAt .leftBrace = true)
          (sequence [take, descend 0, reportDepth]) fun _ => False :=
        .sequence_silent (.take_isAt (by simp))
          (.sequence_silent (.of_descend 0) (.sequence_last .of_reportDepth))
      exact (Yields.of_branch (isAhead_isAt rfl) never).anything
  | succ left ih =>
      have selection : Yields (fun state => state.isAtEither .spread .name = true)
          (choose (isAt .spread) (spreadSelection left (selectionSet left))
            (fieldSelection left (selectionSet left))) Anything := by
        refine .of_choose ((yields_spreadSelection left ih).narrow fun _ _ here => here.2)
          ((yields_fieldSelection left ih).narrow fun state _ here => ?_)
        have either := here.1
        rwa [isAtEither, here.2, Bool.false_or] at either
      have content : Yields Anywhere (selections left (selectionSet left)) Anything :=
        (Yields.of_several selection _).anything
      exact (Yields.of_branch (isAhead_isAt rfl) (.sequence_silent (.take_isAt (by simp))
        (.sequence_silent (.of_descend (left + 1)) (.sequence_cons content
          (.sequence_last (.of_close .brace)))))).anything

/-! ## Operations and fragments -/

theorem yields_variableDefinition :
    Yields (fun state => state.isAt .dollar = true) (variableDefinition limit) Anything := by
  have reference : Yields (fun state => state.isAt .dollar = true) variableReference Anything :=
    (Yields.of_branch (isAhead_isAt rfl) (.sequence_silent (.take_isAt (by simp))
      (.sequence_last (yields_name .builtIn)))).anything
  have type : Yields Anywhere
      (choose (isAt .colon) (sequence [take, inputType limit]) (report .nameExpected)) Anything :=
    .of_required (Yields.sequence_silent (.take_isAt (by simp))
      (.sequence_last (yields_inputType .builtIn limit))).anything
  exact (Yields.of_branch (isAhead_isAt rfl) (.sequence_cons reference
    (.sequence_last type))).anything

theorem yields_operationDefinition :
    Yields before (operationDefinition limit) (Single (ReadsDefinition file)) := by
  have declared : Yields Anywhere (whenAt .leftParenthesis (variableDefinitions limit)) Anything :=
    (Yields.of_whenAt (.of_branch (isAhead_isAt rfl) (.sequence_silent (.take_isAt (by simp))
      (.sequence_cons (.of_several (yields_variableDefinition limit) _)
        (.sequence_last (.of_close .parenthesis)))))).anything
  have content : Yields Anywhere (choose (isAt .leftBrace) (selectionSet limit)
      (reject .operationSelectionSetExpected)) Anything :=
    .of_choose ((yields_selectionSet limit).narrow fun _ _ here => here.2) (.of_reject _)
  have noted : ∀ trees holds, Branched .operationDefinition holds trees →
      Single (ReadsDefinition file) trees := by
    rintro trees holds ⟨start, stop, children, rfl, _⟩
    exact ⟨_, _, rfl, .operation⟩
  refine .of_forall fun state => ?_
  by_cases named : state.kind? = some .name
  · refine ⟨_, Anywhere, by simp only [operationDefinition, named]; rfl, ?_, fun _ _ => trivial⟩
    exact .mono (.of_branch isAhead_anywhere (.sequence_cons yields_operationType
      (.sequence_cons (.of_whenAt (yields_name .builtIn)) (.sequence_cons declared
        (.sequence_cons (yields_directives .builtIn false limit) (.sequence_last content))))))
      fun trees found => noted trees _ found
  · by_cases brace : state.kind? = some .leftBrace
    · refine ⟨branch .operationDefinition (selectionSet limit),
        fun state => state.isAt .leftBrace = true, by simp only [operationDefinition, brace],
        .mono (.of_branch (isAhead_isAt rfl) (yields_selectionSet limit))
          fun trees found => noted trees _ found, fun _ _ => ?_⟩
      show (state.kind? == some .leftBrace) = true
      rw [brace, beq_self_eq_true]
    · refine ⟨reject .operationExpected, Anywhere, ?_, .of_reject _, fun _ _ => trivial⟩
      unfold operationDefinition
      split
      · contradiction
      · contradiction
      · rfl

/-- A token that is seen and is not the end of the input. -/
def IsSeen (state : State) : Prop := state.IsSettled ∧ state.IsInside

theorem isAhead_isSeen : IsAhead IsSeen :=
  isAhead_of_isSettled (fun _ _ here => here.1) fun state other current _ here => by
    obtain ⟨⟨token, found, kept⟩, inside⟩ := here
    exact ⟨⟨token, current ▸ found, kept⟩, by rwa [IsInside, isAt, kind?, current] at inside⟩

theorem yields_fragmentDefinition :
    Yields IsSeen (fragmentDefinition limit) (Single (ReadsDefinition file)) := by
  have content : Yields Anywhere (choose (isAt .leftBrace) (selectionSet limit)
      (report .operationSelectionSetExpected)) Anything :=
    .of_required (yields_selectionSet limit)
  refine .mono (.of_branch isAhead_isSeen (.sequence_silent (.of_take fun _ _ here => here.2)
    (.sequence_cons (yields_fragmentName file) (.sequence_cons yields_typeCondition
      (.sequence_cons (yields_directives .builtIn false limit) (.sequence_last content)))))) ?_
  rintro trees ⟨start, stop, children, rfl, _, rest, content,
    ⟨from_, upto, inner, rfl, nameTree, name, single, named⟩, _⟩
  exact ⟨_, _, rfl, .fragment content single named⟩

/-! ## Documents -/

/-- **What begins a definition yields one.** -/
theorem yields_definition (word : String) :
    Yields IsSeen (definition limit word) (Single (ReadsDefinition file)) := by
  unfold definition definition?
  split
  · exact yields_directiveDefinition file limit
  · exact yields_enumDefinition file limit
  · exact yields_extension file limit
  · exact yields_fragmentDefinition file limit
  · exact yields_inputObjectDefinition file limit
  · exact yields_interfaceDefinition file limit
  · exact yields_objectDefinition file limit
  · exact yields_operationDefinition file limit
  · exact yields_operationDefinition file limit
  · exact yields_operationDefinition file limit
  · exact yields_operationDefinition file limit
  · exact yields_scalarDefinition file limit
  · exact yields_schemaDefinition file limit
  · exact yields_unionDefinition file limit
  · exact .of_reject _

theorem yields_documentItem : Yields (fun state => isBeforeEnd state = true) (documentItem limit)
    (Single (ReadsDefinition file)) := by
  refine .of_forall fun state => ?_
  cases current : state.current with
  | none =>
      refine ⟨id, fun _ => False, by simp [documentItem, current],
        ⟨.nothing, fun _ never => never.elim⟩, fun here _ => ?_⟩
      simp [isBeforeEnd, current] at here
  | some token =>
      have seen : ∀ kind : TokenKind, token.kind = kind → kind.isIgnored = false →
          kind ≠ .endOfInput → IsSeen state := by
        intro kind same kept other
        have here : state.isAt kind = true := by simp [isAt, kind?, current, same]
        exact ⟨isSettled_of_isAt here kept, isInside_of_isAt here other⟩
      cases kind : token.kind with
      | string =>
          cases follows : state.following? with
          | none => exact ⟨reject .definitionAfterDescriptionExpected, Anywhere,
              by simp [documentItem, current, kind, follows, reject], .of_reject _,
              fun _ _ => trivial⟩
          | some following => exact ⟨definition limit following.text, IsSeen,
              by simp [documentItem, current, kind, follows], yields_definition file limit _,
              fun _ _ => seen _ kind rfl (by simp)⟩
      | name | leftBrace => exact ⟨definition limit token.text, IsSeen,
          by simp [documentItem, current, kind], yields_definition file limit _,
          fun _ _ => seen _ kind rfl (by simp)⟩
      | _ => exact ⟨reject .documentItemExpected, Anywhere,
          by simp [documentItem, current, kind, reject], .of_reject _, fun _ _ => trivial⟩

/-- **A document that was read without a problem stands for a list of definitions.** -/
theorem yields_document : Yields Anywhere (document limit) (Branched .document fun trees =>
    ∃ definitions, ReadsAll (ReadsDefinition file) trees definitions) := by
  have flushed : Yields Anywhere flush Nothing :=
    ⟨.flush, fun _ _ live _ => ⟨live.flush, [], told_flush _, rfl⟩⟩
  refine .mono (.of_branch isAhead_anywhere (.sequence_cons
    (.of_repeatWhile (yields_documentItem file limit)) (.sequence_last flushed))) ?_
  rintro trees ⟨start, stop, children, rfl, _, _, content, many, rfl⟩
  obtain ⟨definitions, all⟩ := many.exists_readsAll
  refine ⟨start, stop, children, rfl, definitions, ?_⟩
  rw [content, List.append_nil]
  exact all

end Grammar

open Grammar

/-- Reading a text begins where reading goes on, if no text is rejected. -/
theorem isLive_start {depth : Nat} {lexemes : List Lexeme} (supply : Supply lexemes)
    (clean : (State.start depth lexemes).faults = []) : (State.start depth lexemes).IsLive :=
  State.isLive_seek _ supply rfl clean

theorem Document.errors_parse (limits : ReadingLimits) (file : FileId) (source : SourceFile) :
    (Document.parse limits file source).errors =
      (SyntaxTree.ofText limits source.text).faults.map (.ofFault file) := by
  rw [Document.parse]

theorem Document.definitions_parse (limits : ReadingLimits) (file : FileId) (source : SourceFile) :
    (Document.parse limits file source).document.definitions =
      (SyntaxTree.ofText limits source.text).tree.definitions file := by
  rw [Document.parse]

/-- What the root of a tree holds is read as definitions, if the text was read without problems. -/
theorem SyntaxTree.readsAll_of_clean {limits : ReadingLimits} {text : String} (file : FileId)
    (clean : (SyntaxTree.ofText limits text).faults = []) :
    ReadsAll (ReadsDefinition file) (telling (SyntaxTree.ofText limits text).tree.children)
      ((SyntaxTree.ofText limits text).tree.definitions file) := by
  have clean : (document limits.depth
      (.start limits.depth (lexemes limits.tokens text))).faults = [] :=
    List.reverse_eq_nil_iff.1 clean
  have read := yields_document file limits.depth
  have live := isLive_start (supply_lexemes _ _) (read.faults_of clean)
  obtain ⟨_, trees, told, start, stop, children, rfl, definitions, all⟩ :=
    read.reads _ trivial live clean
  have root : (SyntaxTree.ofText limits text).tree = .branch .document start stop children := by
    rw [document, told_branch, List.append_cancel_right_eq, List.reverse_inj,
      List.singleton_inj] at told
    exact told
  rw [root, Tree.children, all.definitions_eq]
  exact all

/-- **A valid document leaves out nothing that its text says.** If a text is read without errors,
the trees below the root of its syntax tree that tell something and the definitions of the document
correspond to each other one by one, in the same order, and so do their parts down to the items of
list values. Only arguments and fields of object values for which no value is written stand for
nothing. -/
theorem Document.readsAll_of_parse {limits : ReadingLimits} {file : FileId} {source : SourceFile}
    (valid : (Document.parse limits file source).errors = []) :
    ReadsAll (ReadsDefinition file) (telling (SyntaxTree.ofText limits source.text).tree.children)
      (Document.parse limits file source).document.definitions := by
  rw [Document.errors_parse, List.map_eq_nil_iff] at valid
  rw [Document.definitions_parse]
  exact SyntaxTree.readsAll_of_clean file valid

/-- **The tree of a text that was read without errors is aligned with the text.** -/
theorem SyntaxTree.isAligned_ofText {limits : ReadingLimits} {text : String}
    (clean : (SyntaxTree.ofText limits text).faults = []) :
    (SyntaxTree.ofText limits text).tree.IsAligned text.toList := by
  have clean : (document limits.depth
      (.start limits.depth (lexemes limits.tokens text))).faults = [] :=
    List.reverse_eq_nil_iff.1 clean
  have steady := (yields_document .builtIn limits.depth).toIsSteady
  have aligned := steady.aligned (State.isAligned_start (steady.faults_of clean)) clean
  exact aligned.trees _ List.mem_cons_self

/-- **All places in a valid document begin between two characters of its text.** -/
theorem Document.arePlaced_of_parse {limits : ReadingLimits} {file : FileId} {source : SourceFile}
    (valid : (Document.parse limits file source).errors = []) :
    ArePlaced file (Text.IsBoundary source.text.toList)
      ((Document.parse limits file source).document.definitions.flatMap Definition.places) := by
  rw [Document.errors_parse, List.map_eq_nil_iff] at valid
  rw [Document.definitions_parse]
  exact Tree.arePlaced_definitions (SyntaxTree.isAligned_ofText valid)

/-- Whatever a document of one type and one extension says is in its definitions. -/
theorem Document.readsAll_of_parse_extension :
    let source : SourceFile :=
      ⟨"doc.graphql", "type A @foo(a: [1]) { x: Int } extend type A { y: A! }"⟩
    (Document.parse {} (.document 0) source).errors = [] ∧
      ReadsAll (ReadsDefinition (.document 0))
        (telling (SyntaxTree.ofText {} source.text).tree.children)
        (Document.parse {} (.document 0) source).document.definitions := by
  have valid : (Document.parse {} (.document 0)
      ⟨"doc.graphql", "type A @foo(a: [1]) { x: Int } extend type A { y: A! }"⟩).errors = [] := by
    decide +kernel
  exact ⟨valid, Document.readsAll_of_parse valid⟩

/-- An argument without a colon and a value is in the tree of a valid document, but the directive
application that it stands in has no arguments in the document. -/
theorem Document.parse_bare_argument :
    let source : SourceFile := ⟨"doc.graphql", "type A @foo(a) { x: Int }"⟩
    let application := ((SyntaxTree.ofText {} source.text).tree.child? .objectDefinition).bind
      fun definition => (definition.child? .directives).bind (child? .directive)
    let parsed := Document.parse {} (.document 0) source
    parsed.errors = [] ∧
      (application.bind (child? .arguments)).map
        (fun arguments => (arguments.childrenOf .argument).map Tree.text) = some ["a"] ∧
      (parsed.document.definitions.map fun definition =>
        match definition with
        | .type (.object node) =>
          node.value.directives.map fun directive => directive.value.arguments.length
        | _ => []) = [[0]] := by
  decide +kernel

end SchemaGraft
