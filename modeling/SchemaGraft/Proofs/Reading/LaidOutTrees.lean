import SchemaGraft.Proofs.Reading.Layout

/-!
# Every text has a tree that is laid out

All productions of the grammar keep trees laid out, each because of how it is put together. Only two
need to know more of the state that they begin in: what becomes an identifier is a token of the kind
of names (`Keeps.name`, `Keeps.typeWith`).

So the tree of a text is laid out in the text that it holds, and that is the text itself, up to
where the limit on lexemes was reached, unless a problem was noted that comes with a loss
(`SyntaxTree.isLaidOut_ofText`).
-/

set_option autoImplicit false

namespace SchemaGraft

namespace Grammar

open State

namespace Keeps

/-! ## Names, values, types and directives -/

/-- Where a name is at hand, it is put into the tree as an identifier. -/
theorem eat_name : KeepsWhere (fun state => state.isAt .name = true) (eat .identifier) :=
  ⟨fun here laid => laid.eat _ fun _ => here⟩

theorem name : Keeps name := by
  have taken : KeepsWhere (fun state => state.isAt .name = true) (State.bump .identifier) :=
    ⟨fun here laid => (eat_name.laidOut here laid).skip⟩
  exact KeepsWhere.choose (taken.branch (isAt_opened rfl)) (.report _)

theorem nameOr (problem : GrammarProblem) : Keeps (nameOr problem) := .choose name (.report _)

theorem namedType : Keeps namedType := .whenAt (.branch name)

theorem variableReference : Keeps variableReference := .branch (.cons .take (.cons name .nil))

theorem keyword (word : String) : Keeps (keyword word) := .whenever .take

theorem description : Keeps description := .whenAt (.branch (.branch .take))

theorem refuse (rejecting : Bool) (problem : GrammarProblem) :
    Keeps (refuse rejecting problem) := by
  cases rejecting with
  | true => exact .reject problem
  | false => exact .report problem

theorem enumValue : Keeps enumValue :=
  .branch (.choose (.cons (.whenever (.report _)) (.cons name .nil)) (.report _))

section Values

variable {left : Nat} {item : Option Production}

theorem listValue (deeper : ∀ {part}, item = some part → Keeps part) :
    Keeps (listValue left item) := by
  refine .branch (.cons .take (.cons ?_ (.cons (.whenAt .take) .nil)))
  cases item with
  | none => exact .whenever (.cons (.descend left) (.cons .reportDepth .nil))
  | some item => exact .repeatWhile (.cons (.descend left) (.cons (deeper rfl) .nil))

theorem objectField (deeper : ∀ {part}, item = some part → Keeps part) :
    Keeps (objectField left item) := by
  refine .branch (.cons name (.cons (.whenAt (.cons .take (.cons (.descend left) (.cons ?_ .nil))))
    .nil))
  cases item with
  | none => exact .reportDepth
  | some item => exact deeper rfl

theorem objectValue (deeper : ∀ {part}, item = some part → Keeps part) :
    Keeps (objectValue left item) :=
  .branch (.cons .take (.cons (.repeatWhile (objectField deeper)) (.cons (.close _) .nil)))

theorem valueWith (constant rejecting : Bool) (deeper : ∀ {part}, item = some part → Keeps part) :
    Keeps (valueWith constant left item rejecting) := by
  have variableOr : Keeps (sequence
      [if constant then Grammar.refuse rejecting .variableInConstant else id,
        Grammar.variableReference]) := by
    refine .cons ?_ (.cons variableReference .nil)
    split
    · exact refuse _ _
    · exact .nothing
  refine ⟨fun here laid => ?_⟩
  unfold Grammar.valueWith
  split
  · exact variableOr.laidOut here laid
  · exact (Keeps.branch .take).laidOut here laid
  · exact (Keeps.branch .take).laidOut here laid
  · exact (Keeps.branch .take).laidOut here laid
  · split_ifs
    · exact (Keeps.branch .take).laidOut here laid
    · exact (Keeps.branch .take).laidOut here laid
    · exact enumValue.laidOut here laid
  · exact (listValue deeper).laidOut here laid
  · exact (objectValue deeper).laidOut here laid
  · exact (refuse _ _).laidOut here laid

end Values

theorem value (constant : Bool) (left : Nat) (rejecting : Bool) :
    Keeps (value constant left rejecting) := by
  induction left generalizing rejecting with
  | zero => exact valueWith constant rejecting nofun
  | succ left ih =>
      refine valueWith constant rejecting ?_
      rintro _ ⟨⟩
      exact ih true

section Types

variable {left : Nat} {item : Option Production}

theorem typeWith (deeper : ∀ {part}, item = some part → Keeps part) :
    Keeps (typeWith left item) := by
  have named : KeepsWhere (fun state => state.isAt .name = true) (Grammar.perhapsNonNull
      (Grammar.branch .namedType (Grammar.branch .name (eat .identifier)))) := by
    refine .perhapsNonNull (.branch (.branch eat_name (isAt_opened rfl)) (isAt_opened rfl)) ?_
    intro state here
    show ((state.flush.current.map _) == some TokenKind.name) = true
    rw [current_flush]
    exact here
  refine ⟨fun here laid => ?_⟩
  unfold Grammar.typeWith
  split_ifs with list here
  · cases item with
    | none =>
        exact (Keeps.branch (.cons .take (.cons (.descend left) (.cons .reportDepth .nil)))).laidOut
          trivial laid
    | some item =>
        exact (Keeps.perhapsNonNull (.branch (.cons .take (.cons (.descend left)
          (.cons (deeper rfl) (.cons (.close _) .nil)))))).laidOut trivial laid
  · exact named.laidOut here laid
  · exact laid

/-- A token that is taken away without a place in the tree is lost text. -/
theorem itemType {type : Production} (keeps : Keeps type) : Keeps (itemType type) where
  laidOut := by
    intro source front state here laid
    have flushed := laid.flush
    unfold Grammar.itemType
    dsimp only
    split_ifs with begins some
    · exact keeps.laidOut here laid
    · exact flushed.drop some
    · exact flushed

theorem type (left : Nat) : Keeps (type left) := by
  induction left with
  | zero => exact typeWith nofun
  | succ left ih =>
      refine typeWith ?_
      rintro _ ⟨⟩
      exact itemType ih

end Types

section Applications

variable (constant : Bool) (left : Nat)

theorem argument : Keeps (argument constant left) :=
  .branch (.cons name (.cons (.whenAt (.cons .take (.cons (value _ _ _) .nil))) .nil))

/-- Several things of one kind between two marks. -/
theorem group {kind : TreeKind} {condition : State → Bool} {item : Production} (keeps : Keeps item)
    (problem : GrammarProblem) (mark : ClosingMark) : Keeps (Grammar.branch kind
      (sequence [Grammar.take, Grammar.several condition item problem, Grammar.close mark])) :=
  .branch (.cons .take (.cons (keeps.several _) (.cons (.close _) .nil)))

theorem arguments : Keeps (arguments constant left) := group (argument _ _) _ _

theorem directive : Keeps (directive constant left) :=
  .branch (.cons .take (.cons name (.cons (.whenAt (arguments _ _)) .nil)))

theorem directives : Keeps (directives constant left) :=
  .whenAt (.branch (.repeatWhile (directive _ _)))

end Applications

/-! ## Definitions -/

section Definitions

variable (limit : Nat)

theorem inputType : Keeps (inputType limit) := by
  have default : Keeps (defaultValue limit) := .branch (.cons .take (.cons (value _ _ _) .nil))
  exact .choose (.cons (type _) (.cons (.whenAt default) (.cons (directives _ _) .nil))) (.report _)

theorem inputValueDefinition : Keeps (inputValueDefinition limit) :=
  .branch (.cons description (.cons name (.cons
    (.choose (.cons .take (.cons (inputType _) .nil)) (.report _)) .nil)))

theorem argumentsDefinition : Keeps (argumentsDefinition limit) :=
  group (inputValueDefinition _) _ _

theorem fieldDefinition : Keeps (fieldDefinition limit) := by
  have outputType : Keeps (Grammar.choose isAtType
      (sequence [Grammar.type limit, Grammar.directives true limit])
      (Grammar.report .typeAfterColonExpected)) :=
    .choose (.cons (type _) (.cons (directives _ _) .nil)) (.report _)
  exact .branch (.cons description (.cons name (.cons (.whenAt (argumentsDefinition _)) (.cons
    (.choose (.cons .take (.cons outputType .nil)) (.report _)) .nil))))

theorem fieldsDefinition : Keeps (fieldsDefinition limit) := group (fieldDefinition _) _ _

theorem inputFieldsDefinition : Keeps (inputFieldsDefinition limit) :=
  group (inputValueDefinition _) _ _

theorem enumValueDefinition : Keeps (enumValueDefinition limit) :=
  .branch (.cons description (.cons enumValue (.cons (directives _ _) .nil)))

theorem enumValuesDefinition : Keeps (enumValuesDefinition limit) :=
  group (enumValueDefinition _) _ _

theorem listedType (problem : GrammarProblem) : Keeps (listedType problem) :=
  .choose namedType (.report _)

theorem implementsInterfaces : Keeps implementsInterfaces :=
  .branch (.cons .take (.cons (.separated (listedType _)) .nil))

theorem unionMembers : Keeps unionMembers :=
  .branch (.cons .take (.cons (.separated (listedType _)) .nil))

theorem scalarDefinition : Keeps (scalarDefinition limit) :=
  .branch (.cons description (.cons (keyword _) (.cons name (.cons (directives _ _) .nil))))

theorem objectDefinition : Keeps (objectDefinition limit) :=
  .branch (.cons description (.cons (keyword _) (.cons (nameOr _) (.cons
    (.whenAt (.choose implementsInterfaces (.report _))) (.cons (directives _ _) (.cons
    (.whenAt (fieldsDefinition _)) .nil))))))

theorem interfaceDefinition : Keeps (interfaceDefinition limit) :=
  .branch (.cons description (.cons (keyword _) (.cons name (.cons
    (.whenever implementsInterfaces) (.cons (directives _ _) (.cons
    (.whenAt (fieldsDefinition _)) .nil))))))

theorem unionDefinition : Keeps (unionDefinition limit) :=
  .branch (.cons description (.cons (keyword _) (.cons name (.cons (directives _ _) (.cons
    (.whenAt unionMembers) .nil)))))

theorem enumDefinition : Keeps (enumDefinition limit) :=
  .branch (.cons description (.cons (keyword _) (.cons name (.cons (directives _ _) (.cons
    (.whenAt (enumValuesDefinition _)) .nil)))))

theorem inputObjectDefinition : Keeps (inputObjectDefinition limit) :=
  .branch (.cons description (.cons (keyword _) (.cons name (.cons (directives _ _) (.cons
    (.whenAt (inputFieldsDefinition _)) .nil)))))

theorem directiveLocation : Keeps directiveLocation :=
  .choose (.choose (.branch .take) (.report _)) (.report _)

theorem directiveDefinition : Keeps (directiveDefinition limit) := by
  have locations : Keeps (Grammar.branch .directiveLocations
      (Grammar.separated .verticalBar Grammar.directiveLocation)) :=
    .branch (.separated directiveLocation)
  exact .branch (.cons description (.cons (keyword _) (.cons (.choose .take (.report _)) (.cons name
    (.cons (.whenAt (argumentsDefinition _)) (.cons (.whenever (.bump (by decide))) (.cons
    (.choose .take (.report _)) (.cons (.choose locations (.report _)) .nil))))))))

theorem operationType : Keeps operationType := .whenever (.branch (.choose .take (.reject _)))

theorem rootOperation : Keeps rootOperation :=
  .branch (.cons operationType (.cons
    (.choose (.cons .take (.cons namedType .nil)) (.report _)) .nil))

theorem schemaDefinition : Keeps (schemaDefinition limit) := by
  have roots : Keeps (sequence [Grammar.take,
      Grammar.several (isAt .name) Grammar.rootOperation .rootOperationExpected,
      Grammar.close .brace]) :=
    .cons .take (.cons (rootOperation.several _) (.cons (.close _) .nil))
  exact .branch (.cons description (.cons (keyword _) (.cons (directives _ _) (.cons
    (.whenAt roots) .nil))))

theorem schemaExtension : Keeps (schemaExtension limit) := by
  refine .branch ⟨fun {_ _ state} here laid => ?_⟩
  have applied := ((Keeps.take.andThen .take).andThen (directives true limit)).laidOut here laid
  have roots : Keeps fun state =>
      Grammar.close .brace (Grammar.repeatWhile (isAt .name) Grammar.rootOperation
        (Grammar.take state)) :=
    (Keeps.take.andThen rootOperation.repeatWhile).andThen (.close .brace)
  have listed := roots.laidOut trivial applied
  dsimp only
  split_ifs
  · exact listed
  · exact listed.report _
  · exact applied
  · exact applied.report _

theorem typeExtension {kind : TreeKind} {problem : GrammarProblem}
    {parts : List ((State → Bool) × Production)}
    (keeps : Keeps (sequence (parts.map fun part => Grammar.whenever part.1 part.2))) :
    Keeps (typeExtension kind problem parts) :=
  .branch (.cons .take (.cons .take (.cons name (.cons (.someOf _ keeps) .nil))))

theorem extension? {word : String} {production : Production}
    (found : extension? limit word = some production) : Keeps production := by
  have added : Keeps (Grammar.whenever (isAt .atSign) (Grammar.directives true limit)) :=
    .whenever (directives _ _)
  have fields : Keeps (sequence [Grammar.whenever isAtImplements Grammar.implementsInterfaces,
      Grammar.whenever (isAt .atSign) (Grammar.directives true limit),
      Grammar.whenever (isAt .leftBrace) (Grammar.fieldsDefinition limit)]) :=
    .cons (.whenever implementsInterfaces)
      (.cons added (.cons (.whenever (fieldsDefinition _)) .nil))
  unfold Grammar.extension? at found
  split at found <;> cases found
  · exact schemaExtension limit
  · exact typeExtension (.cons added .nil)
  · exact typeExtension fields
  · exact typeExtension fields
  · exact typeExtension (.cons added (.cons (.whenever unionMembers) .nil))
  · exact typeExtension (.cons added (.cons (.whenever (enumValuesDefinition _)) .nil))
  · exact typeExtension (.cons added (.cons (.whenever (inputFieldsDefinition _)) .nil))

theorem extension : Keeps (extension limit) := by
  refine ⟨fun {_ _ state} here laid => ?_⟩
  unfold Grammar.extension
  split
  · rename_i production found
    obtain ⟨token, _, found⟩ := Option.bind_eq_some_iff.1 found
    exact (extension? limit found).laidOut here laid
  · exact laid.reject _

end Definitions

/-! ## Operations and fragments -/

theorem fragmentName : Keeps fragmentName :=
  .branch (.choose (.choose (.report _) name) (.report _))

theorem typeCondition : Keeps typeCondition :=
  .branch (.choose (.cons (.choose .take (.report _)) (.cons (.choose namedType (.report _)) .nil))
    (.report _))

section Selections

variable {left : Nat} {content : Production} (below : Keeps content)
include below

theorem fieldSelection : Keeps (fieldSelection left content) := by
  have renamed : Keeps (Grammar.branch .alias (sequence [Grammar.name, Grammar.take])) :=
    .branch (.cons name (.cons .take .nil))
  exact .branch (.cons (.whenever renamed) (.cons name (.cons (.whenAt (arguments _ _)) (.cons
    (directives _ _) (.cons (.whenAt below) .nil)))))

theorem inlineFragment : Keeps (inlineFragment left content) :=
  .branch (.cons .take (.cons (.whenAt typeCondition) (.cons (directives _ _) (.cons
    (.choose below (.report _)) .nil))))

theorem spreadSelection : Keeps (spreadSelection left content) := by
  have spread : Keeps (fragmentSpread left) :=
    .branch (.cons .take (.cons (.choose fragmentName (.report _)) (.cons (directives _ _) .nil)))
  refine ⟨fun {_ _ state} here laid => ?_⟩
  unfold Grammar.spreadSelection
  split
  · exact laid.reject _
  · split_ifs
    · exact spread.laidOut here laid
    · exact (inlineFragment below).laidOut here laid
    · exact Keeps.take.laidOut here (laid.report _)

theorem selections : Keeps (Grammar.selections left content) :=
  .several (.choose (spreadSelection below) (fieldSelection below)) _

end Selections

theorem selectionSetWith {left : Nat} {content : Option Production}
    (below : ∀ {part}, content = some part → Keeps part) :
    Keeps (selectionSetWith left content) := by
  refine .branch ?_
  cases content with
  | none => exact .cons .take (.cons (.descend _) (.cons .reportDepth .nil))
  | some content =>
      exact .cons .take (.cons (.descend _) (.cons (below rfl) (.cons (.close _) .nil)))

theorem selectionSet (left : Nat) : Keeps (selectionSet left) := by
  induction left with
  | zero => exact selectionSetWith nofun
  | succ left ih =>
      refine selectionSetWith ?_
      rintro _ ⟨⟩
      exact selections ih

section Documents

variable (limit : Nat)

theorem variableDefinitions : Keeps (variableDefinitions limit) := by
  have variableDefinition : Keeps (variableDefinition limit) :=
    .branch (.cons variableReference (.cons
      (.choose (.cons .take (.cons (inputType _) .nil)) (.report _)) .nil))
  exact group variableDefinition _ _

theorem operationDefinition : Keeps (operationDefinition limit) := by
  have named : Keeps (Grammar.branch .operationDefinition
      (sequence [
        Grammar.operationType,
        Grammar.whenAt .name Grammar.name,
        Grammar.whenAt .leftParenthesis (Grammar.variableDefinitions limit),
        Grammar.directives false limit,
        Grammar.choose (isAt .leftBrace) (Grammar.selectionSet limit)
          (Grammar.reject .operationSelectionSetExpected)])) :=
    .branch (.cons operationType (.cons (.whenAt name) (.cons (.whenAt (variableDefinitions _))
      (.cons (directives _ _) (.cons (.choose (selectionSet _) (.reject _)) .nil)))))
  refine ⟨fun {_ _ state} here laid => ?_⟩
  unfold Grammar.operationDefinition
  split
  · exact named.laidOut here laid
  · exact (Keeps.branch (selectionSet limit)).laidOut here laid
  · exact laid.reject _

theorem fragmentDefinition : Keeps (fragmentDefinition limit) :=
  .branch (.cons .take (.cons fragmentName (.cons typeCondition (.cons (directives _ _) (.cons
    (.choose (selectionSet _) (.report _)) .nil)))))

/-! ## Whole documents -/

theorem definition? {word : String} {production : Production}
    (found : definition? limit word = some production) : Keeps production := by
  unfold Grammar.definition? at found
  split at found <;> cases found
  · exact directiveDefinition limit
  · exact enumDefinition limit
  · exact extension limit
  · exact fragmentDefinition limit
  · exact inputObjectDefinition limit
  · exact interfaceDefinition limit
  · exact objectDefinition limit
  · exact operationDefinition limit
  · exact operationDefinition limit
  · exact operationDefinition limit
  · exact operationDefinition limit
  · exact scalarDefinition limit
  · exact schemaDefinition limit
  · exact unionDefinition limit

theorem definition (word : String) : Keeps (definition limit word) := by
  unfold Grammar.definition
  cases found : Grammar.definition? limit word with
  | none => exact .reject _
  | some production => exact definition? limit found

theorem documentItem : Keeps (documentItem limit) := by
  refine ⟨fun {_ _ state} here laid => ?_⟩
  unfold Grammar.documentItem
  split
  · exact laid
  · split
    · split
      · exact (definition limit _).laidOut here laid
      · exact laid.reject _
    · exact (definition limit _).laidOut here laid
    · exact (definition limit _).laidOut here laid
    · exact laid.reject _

/-- **Reading a document keeps trees laid out.** -/
theorem document : Keeps (document limit) :=
  .branch (.cons (.repeatWhile (documentItem _)) (.cons .flush .nil))

end Documents

end Keeps

end Grammar

open Grammar

theorem children_branch (kind : TreeKind) (part : Production) (state : State) :
    (branch kind part state).children =
      .branch kind state.flush.length (part state.opened).length
        (part state.opened).children.reverse :: state.flush.children :=
  rfl

/-- Reading of a text ends with one tree, that of a document. -/
theorem SyntaxTree.children_ofText (limits : ReadingLimits) (text : String) :
    (document limits.depth (.start limits.depth (lexemes limits.tokens text))).children =
      [(SyntaxTree.ofText limits text).tree] := by
  have ignored : (State.start limits.depth (lexemes limits.tokens text)).ignored = [] :=
    State.ignored_seek _ _
  have children : (State.start limits.depth (lexemes limits.tokens text)).flush.children = [] := by
    rw [State.flush, ignored]
    exact State.children_seek _ _ _
  rw [SyntaxTree.ofText, document, children_branch, children]
  rfl

/-- **The tree of a text is laid out in the text that it holds.** This is what is left of the text:
all of it up to the limit on lexemes, unless a problem was noted that comes with a loss. -/
theorem SyntaxTree.isLaidOut_ofText (limits : ReadingLimits) (text : String) :
    let read := SyntaxTree.ofText limits text
    read.tree.StandsBehind [] ∧ read.tree.text.toList.Sublist text.toList ∧
      (LosesText read.faults ∨ read.tree.text.toList <+: text.toList) := by
  have laid := (Keeps.document limits.depth).laidOut trivial
    (State.isLaidOut_start limits.depth limits.tokens text)
  have faults : (SyntaxTree.ofText limits text).faults =
      (document limits.depth
        (.start limits.depth (lexemes limits.tokens text))).faults.reverse := by
    rw [SyntaxTree.ofText]
  have trees := laid.trees
  obtain ⟨back, _, left⟩ := laid.left
  rw [State.taken, SyntaxTree.children_ofText, List.reverse_singleton, Tree.textOfList_singleton,
    List.nil_append] at left
  rw [SyntaxTree.children_ofText, List.reverse_singleton, Tree.standInRow_singleton] at trees
  refine ⟨trees, (List.sublist_append_left _ _).trans left.sublist, ?_⟩
  rcases left.whole with ⟨fault, member, loses⟩ | whole
  · refine .inl ⟨fault, ?_, loses⟩
    rwa [faults, List.mem_reverse]
  · exact .inr ⟨_, whole⟩

end SchemaGraft
