import SchemaGraft.Proofs.Reading.Productions

/-!
# What the productions of values yield

Names, values, types and directive applications are trees that stand for something, unless a problem
was found. A production of constant values is also one of the values of operations; of these nothing
is said but that problems are noticed.
-/

set_option autoImplicit false

namespace SchemaGraft

open SchemaGraft.Tree

namespace Grammar

open State

variable (file : FileId) {before : State → Prop}

/-! ## Names and descriptions -/

theorem kind_of_isAt {state : State} {kind : TokenKind} {token : Token}
    (here : state.isAt kind = true) (current : state.current = some token) :
    token.kind = kind := by
  rw [isAt, kind?, current, beq_iff_eq] at here
  exact Option.some.inj here

/-- A name, with what is known of the text that is at hand. -/
theorem yields_name_of (about : String → Prop) :
    Yields (fun state => ∀ token, state.current = some token → about token.text) name
      (Single fun tree name => ReadsName file tree name ∧ about name.text) := by
  refine .of_choose ?_ (.of_report _)
  have ahead : IsAhead fun state => (∀ token, state.current = some token → about token.text) ∧
      state.isAt .name = true :=
    isAhead_of_isSettled (fun _ _ here => isSettled_of_isAt here.2 rfl)
      fun state other current _ here => by rwa [isAt, kind?, ← current]
  refine .mono (.of_branch ahead (.of_bump (fun token => IsWord .name token.text ∧ about token.text)
    .identifier (fun state token here current spelled => ?_)
    fun _ _ here => isInside_of_isAt here.2 (by simp))) ?_
  · have isName := kind_of_isAt here.2 current
    exact ⟨isName ▸ spelled.word (.inl isName), here.1 token current⟩
  · rintro trees ⟨start, stop, children, rfl, token, place, ⟨word, known⟩, content⟩
    exact ⟨_, _, rfl, .mk content word, known⟩

theorem yields_name : Yields before name (Single (ReadsName file)) := by
  refine ((yields_name_of file fun _ => True).narrow fun _ _ _ _ _ => trivial).mono ?_
  rintro trees ⟨tree, name, rfl, named, _⟩
  exact ⟨tree, name, rfl, named⟩

theorem yields_namedType (here : ∀ state, before state → state.isAt .name = true) :
    Yields before namedType (Single (ReadsNamedType file)) := by
  refine .whenever_at ((Yields.of_branch (isAhead_isAt rfl) (yields_name file)).mono ?_) here
  rintro trees ⟨start, stop, children, rfl, tree, name, content, named⟩
  exact ⟨_, name, rfl, .mk content named⟩

/-- A description, if there is one. -/
theorem yields_description :
    Yields before description fun trees => ∃ description, ReadsDescription trees description := by
  refine .mono (.of_whenAt (.of_branch (isAhead_isAt rfl) (.branch_take .stringValue (fun _ => True)
    (fun _ _ _ _ _ => trivial) (fun _ _ here => isInside_of_isAt here (by simp))
    (fun _ _ here => isSettled_of_isAt here rfl) (isAhead_isAt rfl)))) ?_
  rintro trees (rfl | ⟨start, stop, children, rfl, token, from_, upto, place, _, content⟩)
  · exact ⟨none, .absent⟩
  · exact ⟨_, .present content⟩

/-! ## Values -/

/-- Something holds of trees if they are those of a constant. -/
def IfConstant (constant : Bool) (holds : List Tree → Prop) (trees : List Tree) : Prop :=
  constant = true → holds trees

theorem yields_refuse {holds : List Tree → Prop} (rejecting : Bool) (problem : GrammarProblem) :
    Yields before (refuse rejecting problem) holds := by
  cases rejecting with
  | true => exact .of_reject problem
  | false => exact .of_report problem

/-- A literal that is a single token. -/
theorem yields_literal {kind : TreeKind} {tokenKind : TokenKind} (other : tokenKind ≠ .endOfInput)
    (kept : tokenKind.isIgnored = false) :
    Yields (fun state => state.isAt tokenKind = true) (branch kind take) fun trees =>
      ∃ (token : Token) (start stop place : Nat), (token.kind = tokenKind ∧ token.IsSpelled) ∧
        trees = [.branch kind start stop [.leaf .part token.text place]] :=
  .branch_take kind (fun token => token.kind = tokenKind ∧ token.IsSpelled)
    (fun _ _ here current spelled => ⟨kind_of_isAt here current, spelled⟩)
    (fun _ _ here => isInside_of_isAt here other) (fun _ _ here => isSettled_of_isAt here kept)
    (isAhead_isAt kept)

/-- An enum value is no word with a meaning of its own. -/
theorem yields_enumValue :
    Yields before enumValue fun trees => ∃ (start stop : Nat) (children : List Tree) (tree : Tree)
      (name : Name), trees = [.branch .enumValue start stop children] ∧ telling children = [tree] ∧
        ReadsName file tree name ∧ IsFreeName name.text := by
  have free : ∀ state : State, isAtReserved state = false → ∀ token,
      state.current = some token → IsFreeName token.text := by
    intro state reserved token current
    simp only [isAtReserved, isAtText, current, Option.any_some, Bool.or_eq_false_iff,
      beq_eq_false_iff_ne] at reserved
    exact ⟨reserved.1.1, reserved.1.2, reserved.2⟩
  have named : Yields Anywhere (sequence [whenever isAtReserved (report .reservedEnumValue), name])
      (Single fun tree name => ReadsName file tree name ∧ IsFreeName name.text) := by
    refine .of_forall fun state => ?_
    cases reserved : isAtReserved state with
    | true =>
        refine ⟨fun state => name (report .reservedEnumValue state), Anywhere,
          by simp [sequence, whenever, choose, reserved], ?_, fun _ _ => trivial⟩
        have never : Yields Anywhere (report .reservedEnumValue) fun _ => False := .of_report _
        exact never.never_then (yields_name_of file fun _ => True)
    | false =>
        exact ⟨name, _, by simp [sequence, whenever, choose, reserved],
          yields_name_of file IsFreeName, fun _ _ => free state reserved⟩
  refine Yields.mono (Yields.anywhere
    (.of_branch isAhead_anywhere (.of_choose named.anywhere (.of_report _)))) ?_
  rintro trees ⟨start, stop, children, rfl, tree, name, content, named, free⟩
  exact ⟨start, stop, children, tree, name, rfl, content, named, free⟩

/-! ### Nested values -/

section Nested

variable {file} {constant : Bool} {left : Nat} {deeper : Option Production}

/-- A list value, given what stands between its brackets. -/
theorem yields_bracketed {items : Production}
    (each : Yields Anywhere items (Many (IfConstant constant (Single (ReadsValue file))))) :
    Yields (fun state => state.isAt .leftBracket = true)
      (branch .listValue (sequence [take, items, whenAt .rightBracket take]))
      (IfConstant constant (Single (ReadsValue file))) := by
  have closing : Yields Anywhere (sequence [whenAt .rightBracket take]) Nothing :=
    .sequence_last ((Yields.of_whenAt (.take_isAt (by simp))).mono fun _ found => found.elim id id)
  refine .mono (.of_branch (isAhead_isAt rfl) (.sequence_silent (.take_isAt (by simp))
    (.sequence_cons each closing))) ?_
  rintro trees ⟨start, stop, children, rfl, front, back, content, many, rfl⟩ isConstant
  rw [List.append_nil] at content
  have items : ∃ items, ReadsValues file front items := by
    clear content
    induction many with
    | nil => exact ⟨[], .nil⟩
    | cons first _ ih =>
        obtain ⟨tree, item, rfl, reads⟩ := first isConstant
        obtain ⟨items, rest⟩ := ih
        exact ⟨item :: items, .cons reads rest⟩
  obtain ⟨items, reads⟩ := items
  exact ⟨_, _, rfl, .list content reads⟩

/-- A constant is no variable. -/
theorem yields_variable (rejecting : Bool) : Yields (fun state => state.isAt .dollar = true)
    (sequence [if constant then refuse rejecting .variableInConstant else id, variableReference])
    (IfConstant constant (Single (ReadsValue file))) := by
  have reference : Yields (fun state => state.isAt .dollar = true) variableReference Anything :=
    .mono (.of_branch (isAhead_isAt rfl) (.sequence_silent (.take_isAt (by simp))
      (.sequence_last (yields_name file)))) fun _ _ => trivial
  cases constant with
  | false => exact reference.mono fun _ _ isConstant => absurd isConstant Bool.false_ne_true
  | true =>
      have never : Yields (fun state => state.isAt .dollar = true)
          (refuse rejecting .variableInConstant) fun _ => False := yields_refuse _ _
      exact never.never_then reference

variable
  (each : ∀ part ∈ deeper, Yields Anywhere part (IfConstant constant (Single (ReadsValue file))))
include each

theorem yields_listValue : Yields (fun state => state.isAt .leftBracket = true)
    (listValue left deeper) (IfConstant constant (Single (ReadsValue file))) := by
  cases deeper with
  | none =>
      have never : Yields (fun state => isAtItem state = true)
          (sequence [descend left, reportDepth]) fun _ => False :=
        .sequence_silent (.of_descend left) (.sequence_last .of_reportDepth)
      refine yields_bracketed (.mono (.of_whenever never) ?_)
      rintro trees (rfl | never)
      · exact .nil
      · exact never.elim
  | some item =>
      exact yields_bracketed (.of_repeatWhile (.sequence_silent (.of_descend left)
        (.sequence_last (each item rfl))))

/-- A field of an object value may lack its value. -/
theorem yields_objectField : Yields before (objectField left deeper) (Branched .objectField
    (Then (Single (ReadsName file))
      (Perhaps (IfConstant constant (Single (ReadsValue file)))))) := by
  have value : Yields Anywhere (deeper.getD reportDepth)
      (IfConstant constant (Single (ReadsValue file))) := by
    cases deeper with
    | none => exact .of_reportDepth
    | some part => exact each part rfl
  exact (Yields.of_branch isAhead_anywhere (.sequence_cons (yields_name file)
    (.sequence_last (.of_whenAt (.sequence_silent (.take_isAt (by simp))
      (.sequence_silent (.of_descend left) (.sequence_last value))))))).anywhere

theorem yields_objectValue : Yields (fun state => state.isAt .leftBrace = true)
    (objectValue left deeper) (IfConstant constant (Single (ReadsValue file))) := by
  refine .mono (.of_branch (isAhead_isAt rfl) (.sequence_silent (.take_isAt (by simp))
    (.sequence_cons (.of_repeatWhile (yields_objectField each))
      (.sequence_last (.of_close .brace))))) ?_
  rintro trees ⟨start, stop, children, rfl, front, back, content, many, rfl⟩ isConstant
  rw [List.append_nil] at content
  have fields : ∃ fields, ReadsValueFields file front fields := by
    clear content
    induction many with
    | nil => exact ⟨[], .nil⟩
    | cons first _ ih =>
        obtain ⟨start, stop, children, rfl, front, back, content, ⟨tree, name, rfl, named⟩,
          given⟩ := first
        obtain ⟨fields, rest⟩ := ih
        rcases given with rfl | given
        · exact ⟨fields, .bare content named rest⟩
        · obtain ⟨valueTree, value, rfl, reads⟩ := given isConstant
          exact ⟨(name, value) :: fields, .cons content named reads rest⟩
  obtain ⟨fields, reads⟩ := fields
  exact ⟨_, _, rfl, .object content reads⟩

theorem yields_valueWith (rejecting : Bool) : Yields before
    (valueWith constant left deeper rejecting)
    (IfConstant constant (Single (ReadsValue file))) := by
  refine .of_forall fun state => ?_
  have isAt_of : ∀ {kind : TokenKind}, state.kind? = some kind → state.isAt kind = true :=
    fun found => by rw [isAt, found, beq_self_eq_true]
  cases found : state.kind? with
  | none => exact ⟨refuse rejecting .valueExpected, Anywhere, by simp [valueWith, found],
      yields_refuse _ _, fun _ _ => trivial⟩
  | some kind =>
    cases kind with
    | dollar =>
        refine ⟨sequence [if constant then refuse rejecting .variableInConstant else id,
          variableReference], fun state => state.isAt .dollar = true,
          by simp [valueWith, found], ?_, fun _ _ => isAt_of found⟩
        exact yields_variable rejecting
    | int =>
        refine ⟨branch .intValue take, _, by simp [valueWith, found],
          (yields_literal (by simp) rfl).mono ?_, fun _ _ => isAt_of found⟩
        rintro trees ⟨token, start, stop, place, ⟨isInt, spelled⟩, rfl⟩ _
        exact ⟨_, _, rfl, .int (isInt ▸ spelled.word (.inr (.inl isInt)))⟩
    | float =>
        refine ⟨branch .floatValue take, _, by simp [valueWith, found],
          (yields_literal (by simp) rfl).mono ?_, fun _ _ => isAt_of found⟩
        rintro trees ⟨token, start, stop, place, ⟨isFloat, spelled⟩, rfl⟩ _
        exact ⟨_, _, rfl, .float (isFloat ▸ spelled.word (.inr (.inr isFloat)))⟩
    | string =>
        refine ⟨branch .stringValue take, _, by simp [valueWith, found],
          (yields_literal (by simp) rfl).mono ?_, fun _ _ => isAt_of found⟩
        rintro trees ⟨token, start, stop, place, _, rfl⟩ _
        exact ⟨_, _, rfl, .string⟩
    | name =>
        by_cases boolean : (state.isAtText "true" || state.isAtText "false") = true
        · refine ⟨branch .booleanValue take, _, by simp [valueWith, found, boolean],
            (yields_literal (by simp) rfl).mono ?_, fun _ _ => isAt_of found⟩
          rintro trees ⟨token, start, stop, place, _, rfl⟩ _
          exact ⟨_, _, rfl, .boolean⟩
        · by_cases null : state.isAtText "null" = true
          · refine ⟨branch .nullValue take, _, by simp [valueWith, found, boolean, null],
              (yields_literal (by simp) rfl).mono ?_, fun _ _ => isAt_of found⟩
            rintro trees ⟨token, start, stop, place, _, rfl⟩ _
            exact ⟨_, _, rfl, .null⟩
          · refine ⟨enumValue, Anywhere, by simp [valueWith, found, boolean, null],
              (yields_enumValue file).mono ?_, fun _ _ => trivial⟩
            rintro trees ⟨start, stop, children, tree, name, rfl, content, named, free⟩ _
            exact ⟨_, _, rfl, .enumValue content named free⟩
    | leftBracket => exact ⟨listValue left deeper, _, by simp [valueWith, found],
        yields_listValue each, fun _ _ => isAt_of found⟩
    | leftBrace => exact ⟨objectValue left deeper, _, by simp [valueWith, found],
        yields_objectValue each, fun _ _ => isAt_of found⟩
    | _ => exact ⟨refuse rejecting .valueExpected, Anywhere, by simp [valueWith, found],
        yields_refuse _ _, fun _ _ => trivial⟩

end Nested

/-- **A constant value that was read without a problem stands for something.** -/
theorem yields_value (constant : Bool) (left : Nat) (rejecting : Bool) :
    Yields before (value constant left rejecting)
      (IfConstant constant (Single (ReadsValue file))) := by
  induction left generalizing before rejecting with
  | zero => exact yields_valueWith (by rintro part ⟨⟩) rejecting
  | succ left ih =>
      refine yields_valueWith ?_ rejecting
      rintro part ⟨⟩
      exact ih true

/-! ## Types -/

/-- A reference to a type that is not non-null yet. -/
def ReadsNullable (tree : Tree) (reference : TypeReference) : Prop :=
  ReadsReference file tree reference ∧ ∃ nonNull, reference.nonNull? = some nonNull

theorem perhapsNonNull_reads {part : Production}
    (settled : ∀ state : State, state.IsLive → before state → state.IsSettled)
    (ahead : IsAhead before) (yields : Yields before part (Single (ReadsNullable file))) :
    Yields before (perhapsNonNull part) (Single (ReadsReference file)) := by
  refine .mono (.of_perhapsNonNull settled ahead yields) ?_
  rintro trees (⟨tree, reference, rfl, reads, _⟩ |
    ⟨start, stop, children, rfl, tree, nullable, content, reads, reference, wrapped⟩)
  · exact ⟨tree, reference, rfl, reads⟩
  · exact ⟨_, reference, rfl, .nonNull content reads wrapped⟩

theorem yields_itemType {type : Production} {holds : List Tree → Prop}
    (yields : Yields (fun state => isAtType state = true) type holds) :
    Yields before (itemType type) holds := by
  refine .of_forall fun state => ?_
  cases here : isAtType state with
  | true =>
      have swapped : (state.isAtEither .leftBracket .name) = true := by
        rwa [isAtType, isAtEither, Bool.or_comm] at here
      exact ⟨type, _, by simp [itemType, swapped], yields, fun _ _ => here⟩
  | false =>
      have swapped : (state.isAtEither .leftBracket .name) = false := by
        rwa [isAtType, isAtEither, Bool.or_comm] at here
      refine ⟨fun state => if state.flush.current.isSome then
          (state.flush.report .itemTypeExpected).next else state.flush, Anywhere,
        by simp [itemType, swapped],
        ⟨⟨fun state => ?_, fun {text state} aligned clean => ?_⟩, fun state _ live clean => ?_⟩,
        fun _ _ => trivial⟩
      · split
        · exact ((leadsTo_flush state).trans (leadsTo_report _ _)).trans (leadsTo_next _)
        · exact leadsTo_flush state
      · -- The token that is taken away leaves a gap, but there is a problem if there is one.
        split at clean
        · rename_i some
          obtain ⟨token, current⟩ := Option.isSome_iff_exists.1 some
          have reported := (leadsTo_next _).faults_of clean
          rw [State.report, current] at reported
          dsimp only at reported
          rw [reportAbout, if_pos aligned.flush.accepting] at reported
          exact absurd reported (faults_note _)
        · rename_i none
          rw [if_neg none]
          exact aligned.flush
      · obtain ⟨token, current, _⟩ := live.supply
        rw [if_pos (by simp [current])] at clean
        exact absurd ((leadsTo_next _).faults_of clean) (live.flush.faults_report _)

theorem yields_typeWith {left : Nat} {item : Option Production}
    (each : ∀ part ∈ item, Yields Anywhere part (Single (ReadsReference file))) :
    Yields (fun state => isAtType state = true) (typeWith left item)
      (Single (ReadsReference file)) := by
  refine .of_forall fun state => ?_
  cases bracket : state.isAt .leftBracket with
  | true =>
      have settled : ∀ state : State, state.IsLive → state.isAt .leftBracket = true →
          state.IsSettled := fun _ _ here => isSettled_of_isAt here rfl
      cases item with
      | none =>
          refine ⟨branch .listType (sequence [take, descend left, reportDepth]),
            fun state => state.isAt .leftBracket = true, by simp [typeWith, bracket], ?_,
            fun _ _ => bracket⟩
          have never : Yields (fun state => state.isAt .leftBracket = true)
              (sequence [take, descend left, reportDepth]) fun _ => False :=
            .sequence_silent (.take_isAt (by simp)) (.sequence_silent (.of_descend left)
              (.sequence_last .of_reportDepth))
          refine .mono (.of_branch (isAhead_isAt rfl) never) ?_
          rintro trees ⟨_, _, _, _, never⟩
          exact never.elim
      | some item =>
          refine ⟨perhapsNonNull
              (branch .listType (sequence [take, descend left, item, close .bracket])),
            fun state => state.isAt .leftBracket = true, by simp [typeWith, bracket],
            perhapsNonNull_reads file settled (isAhead_isAt rfl) ?_, fun _ _ => bracket⟩
          refine .mono (.of_branch (isAhead_isAt rfl) (.sequence_silent (.take_isAt (by simp))
            (.sequence_silent (.of_descend left) (.sequence_cons (each item rfl)
              (.sequence_last (.of_close .bracket)))))) ?_
          rintro trees ⟨start, stop, children, rfl, _, _, content, ⟨tree, reference, rfl, reads⟩,
            rfl⟩
          exact ⟨_, _, rfl, .list content reads, _, rfl⟩
  | false =>
      cases name : state.isAt .name with
      | true =>
          have settled : ∀ state : State, state.IsLive → state.isAt .name = true →
              state.IsSettled := fun _ _ here => isSettled_of_isAt here rfl
          refine ⟨perhapsNonNull (branch .namedType (branch .name (eat .identifier))),
            fun state => state.isAt .name = true, by simp [typeWith, bracket, name],
            perhapsNonNull_reads file settled (isAhead_isAt rfl) ?_, fun _ _ => name⟩
          refine .mono (.of_branch (isAhead_isAt rfl) (.of_branch (isAhead_isAt rfl)
            (.of_eat (fun token => IsWord .name token.text) .identifier ?_
              fun _ _ here => isInside_of_isAt here (by simp)))) ?_
          · intro state token here current spelled
            exact kind_of_isAt here current ▸ spelled.word (.inl (kind_of_isAt here current))
          · rintro trees ⟨start, stop, children, rfl, from_, upto, inner, content, token, place,
              word, single⟩
            exact ⟨_, _, rfl, .named content (.mk single word), _, rfl⟩
      | false =>
          refine ⟨id, fun _ => False, by simp [typeWith, bracket, name],
            ⟨.nothing, fun _ never => never.elim⟩, fun here _ => ?_⟩
          simp [isAtType, isAtEither, bracket, name] at here

/-- **A type that was read without a problem stands for something.** -/
theorem yields_type (left : Nat) :
    Yields (fun state => isAtType state = true) (type left) (Single (ReadsType file)) := by
  have reference : Yields (fun state => isAtType state = true) (type left)
      (Single (ReadsReference file)) := by
    induction left with
    | zero => exact yields_typeWith file (by rintro part ⟨⟩)
    | succ left ih =>
        refine yields_typeWith file ?_
        rintro part ⟨⟩
        exact yields_itemType ih
  refine reference.mono ?_
  rintro trees ⟨tree, reference, rfl, reads⟩
  cases tree with
  | leaf role text start => cases reads
  | branch kind start stop children => exact ⟨_, _, rfl, .mk reads⟩

/-! ## Directive applications -/

section Directives

variable (constant : Bool) (left : Nat)

/-- An argument may lack its value. -/
theorem yields_argument : Yields before (argument constant left) (Branched .argument
    (Then (Single (ReadsName file)) (Perhaps (IfConstant constant (Single (ReadsValue file)))))) :=
  (Yields.of_branch isAhead_anywhere (.sequence_cons (yields_name file)
    (.sequence_last (.of_whenAt (.sequence_silent (.take_isAt (by simp))
      (.sequence_last (yields_value file constant left false))))))).anywhere

theorem yields_arguments : Yields (fun state => state.isAt .leftParenthesis = true)
    (arguments constant left) (Branched .arguments
      (IfConstant constant fun trees => ∃ arguments, ReadsArguments file trees arguments)) := by
  refine .mono (.of_branch (isAhead_isAt rfl) (.sequence_silent (.take_isAt (by simp))
    (.sequence_cons (.of_several (yields_argument file constant left) _)
      (.sequence_last (.of_close .parenthesis))))) ?_
  rintro trees ⟨start, stop, children, rfl, front, back, content, many, rfl⟩
  refine ⟨start, stop, children, rfl, fun isConstant => ?_⟩
  rw [content, List.append_nil]
  clear content
  induction many with
  | nil => exact ⟨[], .nil⟩
  | cons first _ ih =>
      obtain ⟨start, stop, children, rfl, front, back, content, ⟨tree, name, rfl, named⟩, given⟩ :=
        first
      obtain ⟨arguments, rest⟩ := ih
      rcases given with rfl | given
      · exact ⟨arguments, .bare content named rest⟩
      · obtain ⟨valueTree, value, rfl, reads⟩ := given isConstant
        exact ⟨_ :: arguments, .cons content named reads rest⟩

theorem yields_directive : Yields (fun state => state.isAt .atSign = true)
    (directive constant left) (IfConstant constant (Single (ReadsDirective file))) := by
  refine .mono (.of_branch (isAhead_isAt rfl) (.sequence_silent (.take_isAt (by simp))
    (.sequence_cons (yields_name file)
      (.sequence_last (.of_whenAt (yields_arguments file constant left)))))) ?_
  rintro trees ⟨start, stop, children, rfl, _, back, content, ⟨tree, name, rfl, named⟩, given⟩
    isConstant
  rcases given with rfl | ⟨from_, upto, inner, rfl, given⟩
  · exact ⟨_, _, rfl, .plain content named⟩
  · obtain ⟨arguments, reads⟩ := given isConstant
    exact ⟨_, _, rfl, .given content named reads⟩

/-- **Directive applications that were read without a problem stand for something.** -/
theorem yields_directives : Yields before (directives constant left)
    (IfConstant constant fun trees => ∃ directives, ReadsDirectives file trees directives) := by
  refine .mono (.of_whenAt (.of_branch (isAhead_isAt rfl)
    (.of_repeatWhile (yields_directive file constant left)))) ?_
  rintro trees (rfl | ⟨start, stop, children, rfl, many⟩) isConstant
  · exact ⟨[], .absent⟩
  · have all : Many (Single (ReadsDirective file)) (telling children) :=
      many.mono fun _ each => each isConstant
    obtain ⟨directives, all⟩ := all.exists_readsAll
    exact ⟨directives, .present all⟩

end Directives

end Grammar

end SchemaGraft
