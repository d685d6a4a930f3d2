import SchemaGraft.Proofs.Reading.Values

/-!
# What the productions of definitions yield

Each part of a definition is a tree that stands for something, and the parts come in the order in
which the relations between trees and definitions list them. So a definition that was read without a
problem stands for something as a whole.
-/

set_option autoImplicit false

namespace SchemaGraft

open SchemaGraft.Tree

namespace Grammar

open State

variable (file : FileId) {before : State → Prop} (limit : Nat)

/-! ## Descriptions and names -/

/-- One tree that begins with a description and a name, and what the trees behind these are. -/
inductive Headed (kind : TreeKind) (behind : List Tree → Prop) : List Tree → Prop where
  | mk {start stop : Nat} {children descriptions others : List Tree} {nameTree : Tree}
      {description : Option String} {name : Name}
      (content : telling children = descriptions ++ ([nameTree] ++ others))
      (described : ReadsDescription descriptions description)
      (named : ReadsName file nameTree name) (holds : behind others) :
      Headed kind behind [.branch kind start stop children]

/-- Whatever has a description begins with it and goes on with a name. -/
theorem yields_headed {kind : TreeKind} {parts : List Production} {behind : List Tree → Prop}
    (rest : Yields Anywhere (sequence parts) (Then (Single (ReadsName file)) behind)) :
    Yields before (branch kind (sequence (description :: parts))) (Headed file kind behind) := by
  refine .mono (Yields.of_branch isAhead_anywhere
    (.sequence_cons yields_description rest)).anywhere ?_
  rintro trees ⟨start, stop, children, rfl, descriptions, _, content, ⟨description, described⟩, _,
    others, rfl, ⟨nameTree, name, rfl, named⟩, holds⟩
  exact .mk content described named holds

/-! ## Members of types -/

/-- Directive applications of definitions are constant. -/
theorem yields_applied : Yields before (directives true limit)
    fun trees => ∃ applied, ReadsDirectives file trees applied :=
  (yields_directives file true limit).mono fun _ found => found rfl

theorem yields_defaultValue : Yields before (whenAt .equalsSign (defaultValue limit))
    fun trees => ∃ default, ReadsDefault file trees default := by
  refine .mono (.of_whenAt (.of_branch (isAhead_isAt rfl) (.sequence_silent (.take_isAt (by simp))
    (.sequence_last (yields_value file true limit false))))) ?_
  rintro trees (rfl | ⟨start, stop, children, rfl, given⟩)
  · exact ⟨none, .absent⟩
  · obtain ⟨tree, value, content, reads⟩ := given rfl
    exact ⟨some value, .present content reads⟩

/-- The type of an argument or input field, with what follows. -/
theorem yields_inputType : Yields before (inputType limit)
    (Then (Single (ReadsType file)) (Then (fun trees => ∃ default, ReadsDefault file trees default)
      fun trees => ∃ applied, ReadsDirectives file trees applied)) :=
  .of_required (.sequence_cons (yields_type file limit) (.sequence_cons
    (yields_defaultValue file limit) (.sequence_last (yields_applied file limit))))

theorem yields_inputValueDefinition :
    Yields before (inputValueDefinition limit) (Single (ReadsInput file)) := by
  refine .mono (yields_headed file (.sequence_cons (yields_name file) (.sequence_last (.of_required
    (.sequence_silent (.take_isAt (by simp)) (.sequence_last (yields_inputType file limit))))))) ?_
  rintro _ ⟨content, described, named, _, _, rfl, ⟨typeTree, type, rfl, typed⟩, defaults,
    directives, rfl, ⟨default, defaulted⟩, applied, applies⟩
  exact ⟨_, _, rfl, .mk content described named typed defaulted applies⟩

/-- A group in brackets: an opening mark, several items and a closing mark. -/
theorem yields_group {α : Type} {reads : Tree → α → Prop} {opening : TokenKind} {kind : TreeKind}
    {condition : State → Bool} {item : Production} {problem : GrammarProblem} {mark : ClosingMark}
    (other : opening ≠ .endOfInput) (kept : opening.isIgnored = false)
    (each : Yields (fun state => condition state = true) item (Single reads)) :
    Yields before
      (whenAt opening (branch kind (sequence [take, several condition item problem, close mark])))
      fun trees => ∃ items, ReadsGroup kind reads trees items := by
  refine .mono (.of_whenAt (.of_branch (isAhead_isAt kept) (.sequence_silent (.take_isAt other)
    (.sequence_cons (.of_several each problem) (.sequence_last (.of_close mark)))))) ?_
  rintro trees (rfl | ⟨start, stop, children, rfl, front, _, content, many, rfl⟩)
  · exact ⟨[], .absent⟩
  · obtain ⟨items, all⟩ := many.exists_readsAll
    rw [← List.append_nil front, ← content] at all
    exact ⟨items, .present all⟩

theorem yields_argumentsDefinition :
    Yields before (whenAt .leftParenthesis (argumentsDefinition limit))
      fun trees => ∃ inputs, ReadsGroup .argumentsDefinition (ReadsInput file) trees inputs :=
  yields_group (by simp) rfl (yields_inputValueDefinition file limit)

theorem yields_fieldDefinition :
    Yields before (fieldDefinition limit) (Single (ReadsField file)) := by
  refine .mono (yields_headed file (.sequence_cons (yields_name file) (.sequence_cons
    (yields_argumentsDefinition file limit) (.sequence_last (.of_required (.sequence_silent
      (.take_isAt (by simp)) (.sequence_last (.of_required (.sequence_cons (yields_type file limit)
        (.sequence_last (yields_applied file limit))))))))))) ?_
  rintro _ ⟨content, described, named, arguments, _, rfl, ⟨inputs, takes⟩, _, directives, rfl,
    ⟨typeTree, type, rfl, typed⟩, applied, applies⟩
  exact ⟨_, _, rfl, .mk content described named takes typed applies⟩

theorem yields_fieldsDefinition : Yields before (whenAt .leftBrace (fieldsDefinition limit))
    fun trees => ∃ fields, ReadsFields file trees fields :=
  yields_group (by simp) rfl (yields_fieldDefinition file limit)

theorem yields_inputFieldsDefinition :
    Yields before (whenAt .leftBrace (inputFieldsDefinition limit))
      fun trees => ∃ fields, ReadsGroup .inputFieldsDefinition (ReadsInput file) trees fields :=
  yields_group (by simp) rfl (yields_inputValueDefinition file limit)

theorem yields_enumValueDefinition :
    Yields before (enumValueDefinition limit) (Single (ReadsEnumValue file)) := by
  refine .mono (Yields.of_branch isAhead_anywhere (.sequence_cons yields_description
    (.sequence_cons (yields_enumValue file)
      (.sequence_last (yields_applied file limit))))).anywhere ?_
  rintro trees ⟨start, stop, children, rfl, descriptions, _, content, ⟨description, described⟩, _,
    directives, rfl, ⟨from_, upto, inner, tree, name, rfl, single, named, free⟩, applied, applies⟩
  exact ⟨_, _, rfl, .mk content described single named free applies⟩

theorem yields_enumValuesDefinition :
    Yields before (whenAt .leftBrace (enumValuesDefinition limit)) fun trees =>
      ∃ values, ReadsGroup .enumValuesDefinition (ReadsEnumValue file) trees values :=
  yields_group (by simp) rfl (yields_enumValueDefinition file limit)

/-! ## Lists of names -/

/-- A list of types, given the mark or word that begins it. -/
theorem yields_listed {kind : TreeKind} {mark : TokenKind} {problem : GrammarProblem}
    {opening : State → Prop} (other : mark ≠ .endOfInput) (ahead : IsAhead opening)
    (inside : ∀ state : State, state.IsLive → opening state → state.IsInside) :
    Yields opening (branch kind (sequence [take, separated mark (listedType problem)]))
      fun trees => ∃ names, ReadsGroup kind (ReadsNamedType file) trees names := by
  have item : Yields Anywhere (listedType problem) (Single (ReadsNamedType file)) :=
    .of_choose (yields_namedType file fun _ here => here.2) (.of_report _)
  refine .mono (.of_branch ahead (.sequence_silent (.of_take inside)
    (.sequence_last (.of_separated other item)))) ?_
  rintro trees ⟨start, stop, children, rfl, _, rest, content, ⟨first, name, rfl, reads⟩, many⟩
  obtain ⟨names, all⟩ := many.exists_readsAll
  refine ⟨name :: names, .present ?_⟩
  rw [content]
  exact .cons reads all

/-- What begins like a name is not the end of the input. -/
theorem isInside_of_isAtImplements {state : State} (live : state.IsLive)
    (here : isAtImplements state = true) : state.IsInside :=
  live.isInside_of_isAtText here (by simp)

/-- The interfaces of a type, where the word that begins them is at hand. -/
theorem yields_implementsInterfaces :
    Yields (fun state => isAtImplements state = true) implementsInterfaces fun trees =>
      ∃ names, ReadsGroup .implementsInterfaces (ReadsNamedType file) trees names :=
  yields_listed file (by simp) (isAhead_isAtText rfl) fun _ => isInside_of_isAtImplements

theorem yields_interfaces :
    Yields before (whenever isAtImplements implementsInterfaces) fun trees =>
      ∃ names, ReadsGroup .implementsInterfaces (ReadsNamedType file) trees names := by
  refine .mono (.of_whenever (yields_implementsInterfaces file)) ?_
  rintro trees (rfl | found)
  · exact ⟨[], .absent⟩
  · exact found

theorem yields_unionMembers :
    Yields before (whenAt .equalsSign unionMembers) fun trees =>
      ∃ names, ReadsGroup .unionMembers (ReadsNamedType file) trees names := by
  refine .mono (.of_whenAt (yields_listed file (by simp) (isAhead_isAt rfl)
    fun _ _ here => isInside_of_isAt here (by simp))) ?_
  rintro trees (rfl | found)
  · exact ⟨[], .absent⟩
  · exact found

/-! ## Definitions of types -/

theorem yields_scalarDefinition :
    Yields before (scalarDefinition limit) (Single (ReadsDefinition file)) := by
  refine .mono (yields_headed file (.sequence_silent (.of_keyword (by simp))
    (.sequence_cons (yields_name file) (.sequence_last (yields_applied file limit))))) ?_
  rintro _ ⟨content, described, named, applied, applies⟩
  exact ⟨_, _, rfl, .scalar content (.mk described named applies)⟩

theorem yields_objectDefinition :
    Yields before (objectDefinition limit) (Single (ReadsDefinition file)) := by
  have named : Yields Anywhere (nameOr .objectNameExpected) (Single (ReadsName file)) :=
    .of_choose (yields_name file) (.of_report _)
  have listed : Yields Anywhere
      (whenAt .name (choose isAtImplements implementsInterfaces (report .unexpectedName)))
      fun trees => ∃ names, ReadsGroup .implementsInterfaces (ReadsNamedType file) trees names := by
    refine .mono (.of_whenAt (.of_required (yields_implementsInterfaces file))) ?_
    rintro trees (rfl | found)
    · exact ⟨[], .absent⟩
    · exact found
  refine .mono (yields_headed file (.sequence_silent (.of_keyword (by simp)) (.sequence_cons named
    (.sequence_cons listed (.sequence_cons (yields_applied file limit)
      (.sequence_last (yields_fieldsDefinition file limit))))))) ?_
  rintro _ ⟨content, described, named, implements, _, rfl, ⟨interfaces, lists⟩, directives, members,
    rfl, ⟨applied, applies⟩, fields, defines⟩
  exact ⟨_, _, rfl, .object content (.mk described named lists applies defines)⟩

theorem yields_interfaceDefinition :
    Yields before (interfaceDefinition limit) (Single (ReadsDefinition file)) := by
  refine .mono (yields_headed file (.sequence_silent (.of_keyword (by simp)) (.sequence_cons
    (yields_name file) (.sequence_cons (yields_interfaces file) (.sequence_cons
      (yields_applied file limit) (.sequence_last (yields_fieldsDefinition file limit))))))) ?_
  rintro _ ⟨content, described, named, implements, _, rfl, ⟨interfaces, lists⟩, directives, members,
    rfl, ⟨applied, applies⟩, fields, defines⟩
  exact ⟨_, _, rfl, .interface content (.mk described named lists applies defines)⟩

theorem yields_unionDefinition :
    Yields before (unionDefinition limit) (Single (ReadsDefinition file)) := by
  refine .mono (yields_headed file (.sequence_silent (.of_keyword (by simp)) (.sequence_cons
    (yields_name file) (.sequence_cons (yields_applied file limit)
      (.sequence_last (yields_unionMembers file)))))) ?_
  rintro _ ⟨content, described, named, directives, unionMembers, rfl, ⟨applied, applies⟩, members,
    lists⟩
  exact ⟨_, _, rfl, .union content (.mk described named applies lists)⟩

theorem yields_enumDefinition :
    Yields before (enumDefinition limit) (Single (ReadsDefinition file)) := by
  refine .mono (yields_headed file (.sequence_silent (.of_keyword (by simp)) (.sequence_cons
    (yields_name file) (.sequence_cons (yields_applied file limit)
      (.sequence_last (yields_enumValuesDefinition file limit)))))) ?_
  rintro _ ⟨content, described, named, directives, members, rfl, ⟨applied, applies⟩, values,
    defines⟩
  exact ⟨_, _, rfl, .enum content (.mk described named applies defines)⟩

theorem yields_inputObjectDefinition :
    Yields before (inputObjectDefinition limit) (Single (ReadsDefinition file)) := by
  refine .mono (yields_headed file (.sequence_silent (.of_keyword (by simp)) (.sequence_cons
    (yields_name file) (.sequence_cons (yields_applied file limit)
      (.sequence_last (yields_inputFieldsDefinition file limit)))))) ?_
  rintro _ ⟨content, described, named, directives, members, rfl, ⟨applied, applies⟩, fields,
    defines⟩
  exact ⟨_, _, rfl, .inputObject content (.mk described named applies defines)⟩

/-! ## Definitions of directives -/

/-- A directive location is one of the places that have a name. -/
theorem yields_directiveLocation :
    Yields before directiveLocation (Single ReadsDirectiveLocation) := by
  have ahead : IsAhead fun state => state.isAt .name = true ∧ isAtDirectiveLocation state = true :=
    isAhead_of_isSettled (fun _ _ here => isSettled_of_isAt here.1 rfl)
      fun state other current _ here => by rwa [isAt, kind?, isAtDirectiveLocation, ← current]
  have known := Yields.branch_take .directiveLocation
    (fun token => ∃ location, DirectiveLocation.ofText? token.text = some location)
    (fun state token here current _ => by
      have found := here.2
      rwa [isAtDirectiveLocation, current, Option.any_some, Option.isSome_iff_exists] at found)
    (fun _ _ here => isInside_of_isAt here.1 (by simp))
    (fun _ _ here => isSettled_of_isAt here.1 rfl) ahead
  refine .of_choose (.of_choose (.mono (known.narrow fun _ _ here => ⟨here.1.2, here.2⟩) ?_)
    (.of_report _)) (.of_report _)
  rintro trees ⟨token, start, stop, place, ⟨location, known⟩, rfl⟩
  exact ⟨_, location, rfl, .mk known⟩

theorem yields_repeatable : Yields before (whenever (isAtText "repeatable") (bump .repeatable))
    fun trees => ∃ repeatable, ReadsRepeatable trees repeatable := by
  refine .mono (.of_whenever (.of_bump (fun _ => True) .repeatable
    (fun _ _ _ _ _ => trivial) fun _ live here => live.isInside_of_isAtText here (by simp))) ?_
  rintro trees (rfl | ⟨token, place, _, rfl⟩)
  · exact ⟨false, .absent⟩
  · exact ⟨true, .present⟩

theorem yields_directiveDefinition :
    Yields before (directiveDefinition limit) (Single (ReadsDefinition file)) := by
  have places : Yields Anywhere (choose (isAtEither .name .verticalBar)
      (branch .directiveLocations (separated .verticalBar directiveLocation))
      (report .validDirectiveLocationExpected)) fun trees => ∃ locations,
        ReadsGroup .directiveLocations ReadsDirectiveLocation trees locations ∧ locations ≠ [] := by
    refine .of_choose (.mono (Yields.of_branch isAhead_anywhere
      (.of_separated (by simp) yields_directiveLocation)).anywhere ?_) (.of_report _)
    rintro trees ⟨start, stop, children, rfl, _, rest, content, ⟨first, location, rfl, reads⟩, many⟩
    obtain ⟨locations, all⟩ := many.exists_readsAll
    refine ⟨location :: locations, .present ?_, List.cons_ne_nil _ _⟩
    rw [content]
    exact .cons reads all
  have sign : Yields Anywhere (choose (isAt .atSign) take (report .atSignExpected)) Nothing :=
    .of_required (.take_isAt (by simp))
  have word : Yields Anywhere (choose (isAtText "on") take (report .directiveLocationsExpected))
      Nothing :=
    .of_required (.take_isAtText (by simp))
  refine .mono (yields_headed file (.sequence_silent (.of_keyword (by simp)) (.sequence_silent sign
    (.sequence_cons (yields_name file) (.sequence_cons (yields_argumentsDefinition file limit)
      (.sequence_cons yields_repeatable (.sequence_silent word (.sequence_last places)))))))) ?_
  rintro _ ⟨content, described, named, arguments, _, rfl, ⟨inputs, takes⟩, words, places, rfl,
    ⟨repeatable, repeats⟩, locations, lists, some⟩
  exact ⟨_, _, rfl, .directive content (.mk described named takes repeats lists some)⟩

/-! ## The schema definition -/

theorem yields_operationType : Yields before operationType Anything := by
  have word : Yields (fun state => (Anywhere state) ∧ (state.isAtText "query" ||
      state.isAtText "subscription" || state.isAtText "mutation") = true) take Nothing := by
    refine .of_take fun state live here => ?_
    simp only [Bool.or_eq_true] at here
    rcases here.2 with (here | here) | here <;> exact live.isInside_of_isAtText here (by simp)
  exact (Yields.of_whenever ((Yields.of_branch isAhead_anywhere
    (.of_choose word (.of_reject _))).anywhere)).anything

theorem yields_rootOperation : Yields before rootOperation Anything := by
  have type : Yields Anywhere namedType Anything :=
    (Yields.of_whenAt (.of_branch (isAhead_isAt rfl) (yields_name .builtIn))).anything
  exact (Yields.of_branch isAhead_anywhere (.sequence_cons yields_operationType (.sequence_last
    (.of_required (.sequence_silent (.take_isAt (by simp))
      (.sequence_last type)))))).anywhere.anything

theorem yields_schemaDefinition :
    Yields before (schemaDefinition limit) (Single (ReadsDefinition file)) := by
  have operations : Yields Anywhere (whenAt .leftBrace (sequence [
      take, several (isAt .name) rootOperation .rootOperationExpected, close .brace])) Anything :=
    (Yields.of_whenAt (.sequence_silent (.take_isAt (by simp))
      (.sequence_cons (.of_several yields_rootOperation _)
        (.sequence_last (.of_close .brace))))).anything
  refine .mono (Yields.of_branch isAhead_anywhere (.sequence_cons yields_description
    (.sequence_silent (.of_keyword (by simp)) (.sequence_cons (yields_applied file limit)
      (.sequence_last operations))))).anywhere ?_
  rintro trees ⟨start, stop, children, rfl, _⟩
  exact ⟨_, _, rfl, .schema⟩

/-! ## Extensions -/

/-- The current token is one that the grammar does not pass over, nor is it the end of the input,
and a word follows it. -/
structure IsBeforeWord (state : State) : Prop where
  settled : state.IsSettled
  inside : state.IsInside
  follows : ∃ token, state.following? = some token ∧
    token.text.toList.head?.any isNameStart = true

theorem isAhead_isBeforeWord : IsAhead IsBeforeWord := by
  refine isAhead_of_isSettled (fun _ _ here => here.settled)
    fun state other current upcoming here => ⟨?_, ?_, ?_⟩
  · obtain ⟨token, found, kept⟩ := here.settled
    exact ⟨token, current ▸ found, kept⟩
  · have inside := here.inside
    rwa [IsInside, isAt, kind?, current] at inside
  · have follows := here.follows
    rwa [following?, upcoming] at follows

/-- The first two words of an extension. -/
theorem yields_opening : Yields IsBeforeWord (fun state => take (take state)) Nothing where
  toIsSteady := IsSteady.take.andThen .take
  reads state here live clean := by
    have clean' := IsSteady.take.faults_of clean
    obtain ⟨token, follows, word⟩ := here.follows
    have inside : (take state).IsInside :=
      live.isInside_bump here.inside clean' follows fun spelled => spelled.isVisible word
    obtain ⟨goes_on, _, told, rfl⟩ := (Yields.take_inside).reads state here.inside live clean'
    obtain ⟨goes_on', _, told', rfl⟩ := (Yields.take_inside).reads _ inside goes_on clean
    exact ⟨goes_on', [], told'.trans told, rfl⟩

/-- The parts of an extension, after the words that begin it. -/
theorem yields_typeExtension {kind : TreeKind} {problem : GrammarProblem}
    {parts : List ((State → Bool) × Production)} {holds : List Tree → Prop}
    (each : Yields Anywhere (sequence (parts.map fun part => whenever part.1 part.2)) holds) :
    Yields IsBeforeWord (typeExtension kind problem parts)
      (Branched kind (Then (Single (ReadsName file)) holds)) :=
  .of_branch isAhead_isBeforeWord (yields_opening.silently
    (.sequence_cons (yields_name file) (.sequence_last (.of_someOf problem each))))

/-- Extensions of types that are no object types keep only their name. -/
theorem yields_otherExtension (keyword : ExtensionKeyword) {problem : GrammarProblem}
    {parts : List ((State → Bool) × Production)} {holds : List Tree → Prop}
    (each : Yields Anywhere (sequence (parts.map fun part => whenever part.1 part.2)) holds) :
    Yields IsBeforeWord (typeExtension keyword.treeKind problem parts)
      (Single (ReadsDefinition file)) := by
  refine .mono (yields_typeExtension file each) ?_
  rintro trees ⟨start, stop, children, rfl, _, rest, content, ⟨tree, name, rfl, named⟩, _⟩
  exact ⟨_, _, rfl, .otherExtension keyword content named⟩

/-- Directive applications as a part of an extension. -/
theorem yields_addedDirectives :
    Yields before (whenever (isAt .atSign) (directives true limit))
      fun trees => ∃ applied, ReadsDirectives file trees applied := by
  refine .mono (.of_whenever (yields_applied file limit)) ?_
  rintro trees (rfl | found)
  · exact ⟨[], .absent⟩
  · exact found

theorem yields_objectExtension :
    Yields IsBeforeWord (typeExtension .objectExtension .objectExtensionContentExpected
      [addedInterfaces, addedDirectives limit, (isAt .leftBrace, fieldsDefinition limit)])
      (Single (ReadsDefinition file)) := by
  refine .mono (yields_typeExtension file (.sequence_cons (yields_interfaces file)
    (.sequence_cons (yields_addedDirectives file limit)
      (.sequence_last (yields_fieldsDefinition file limit))))) ?_
  rintro trees ⟨start, stop, children, rfl, _, _, content, ⟨nameTree, name, rfl, named⟩, implements,
    _, rfl, ⟨interfaces, lists⟩, directives, members, rfl, ⟨applied, applies⟩, fields, defines⟩
  exact ⟨_, _, rfl, .objectExtension content (.mk named lists applies defines)⟩

theorem yields_schemaExtension :
    Yields IsBeforeWord (schemaExtension limit) (Single (ReadsDefinition file)) := by
  have report_unless : ∀ found : Bool, Yields Anywhere (fun state =>
      if found then state else state.report .schemaExtensionContentExpected) Nothing := by
    intro found
    cases found with
    | true => exact .nothing
    | false => exact .of_report _
  have operations : ∀ applied : Bool, Yields Anywhere (fun state =>
      let listed := state.isAt .name
      let state := close .brace (repeatWhile (isAt .name) rootOperation state)
      if applied || listed then state else state.report .schemaExtensionContentExpected)
      Anything := fun applied =>
    (((Yields.of_repeatWhile yields_rootOperation).andThen (.of_close .brace)).andThen_from
      fun start => report_unless (applied || start.isAt .name)).anything
  have content : ∀ applied : Bool, Yields Anywhere (fun state =>
      if state.isAt .leftBrace then
        let state := take state
        let listed := state.isAt .name
        let state := close .brace (repeatWhile (isAt .name) rootOperation state)
        if applied || listed then state else state.report .schemaExtensionContentExpected
      else if applied then state
      else state.report .schemaExtensionContentExpected) Anything := fun applied =>
    .of_choose
      ((Yields.take_isAt (by simp)).silently (operations applied) |>.narrow fun _ _ here => here.2)
      (report_unless applied).anything.anywhere
  have rest : Yields Anywhere (fun state =>
      let applied := state.isAt .atSign
      let state := directives true limit state
      if state.isAt .leftBrace then
        let state := take state
        let listed := state.isAt .name
        let state := close .brace (repeatWhile (isAt .name) rootOperation state)
        if applied || listed then state else state.report .schemaExtensionContentExpected
      else if applied then state
      else state.report .schemaExtensionContentExpected) Anything :=
    ((yields_applied file limit).andThen_from fun start => content (start.isAt .atSign)).anything
  refine .mono (.of_branch isAhead_isBeforeWord (yields_opening.silently rest)) ?_
  rintro trees ⟨start, stop, children, rfl, _⟩
  exact ⟨_, _, rfl, .schemaExtension⟩

/-- The extension that a word begins. -/
theorem yields_extension?_some {word : String} {production : Production}
    (found : extension? limit word = some production) :
    Yields IsBeforeWord production (Single (ReadsDefinition file)) := by
  have applied : Yields Anywhere (whenever (isAt .atSign) (directives true limit))
      fun trees => ∃ applied, ReadsDirectives file trees applied :=
    yields_addedDirectives file limit
  unfold extension? at found
  split at found <;> cases found
  · exact yields_schemaExtension file limit
  · exact yields_otherExtension file .scalar (.sequence_last applied)
  · exact yields_objectExtension file limit
  · exact yields_otherExtension file .interface (.sequence_cons (yields_interfaces file)
      (.sequence_cons applied (.sequence_last (yields_fieldsDefinition file limit))))
  · exact yields_otherExtension file .union (.sequence_cons applied
      (.sequence_last (yields_unionMembers file)))
  · exact yields_otherExtension file .enum (.sequence_cons applied
      (.sequence_last (yields_enumValuesDefinition file limit)))
  · exact yields_otherExtension file .inputObject (.sequence_cons applied
      (.sequence_last (yields_inputFieldsDefinition file limit)))

/-- The words that extensions are known by begin like names. -/
theorem isWord_of_extension? {word : String} {production : Production}
    (found : extension? limit word = some production) :
    word.toList.head?.any isNameStart = true := by
  unfold extension? at found
  split at found <;> first | rfl | cases found

theorem yields_extension : Yields (fun state => state.IsSettled ∧ state.IsInside)
    (extension limit) (Single (ReadsDefinition file)) := by
  refine .of_forall fun state => ?_
  cases known : state.following?.bind fun token => extension? limit token.text with
  | none =>
      exact ⟨reject .invalidExtension, Anywhere, by simp [extension, known, reject], .of_reject _,
        fun _ _ => trivial⟩
  | some production =>
      obtain ⟨token, follows, found⟩ := Option.bind_eq_some_iff.1 known
      exact ⟨production, IsBeforeWord, by simp [extension, known],
        yields_extension?_some file limit found,
        fun here _ => ⟨here.1, here.2, token, follows, isWord_of_extension? limit found⟩⟩

end Grammar

end SchemaGraft
