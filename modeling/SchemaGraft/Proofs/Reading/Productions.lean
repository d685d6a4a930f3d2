import SchemaGraft.Proofs.Reading.Alignment
import SchemaGraft.Proofs.Reading.DefinitionTrees

/-!
# What productions yield

A production may find a problem and go on as well as it can. What is said here of a production is
what holds if there is no problem in the end: then there was none before, reading goes on before the
end of the input, and the production has added certain trees (`Yields`).

There is one rule for each way in which productions are put together.
-/

set_option autoImplicit false

namespace SchemaGraft

open SchemaGraft.Tree

namespace Grammar

open State

/-! ## Steady productions -/

/-- A production goes forward: it takes no problem back and leaves the limit on depth as it is. If
it finds no problem, it keeps the tree aligned with the text. -/
structure IsSteady (part : Production) : Prop where
  leadsTo : ∀ state : State, state.LeadsTo (part state)
  aligned : ∀ {text : List Char} {state : State}, state.IsAligned text → (part state).faults = [] →
    (part state).IsAligned text

namespace IsSteady

variable {part second : Production}

theorem faults_of (steady : IsSteady part) {state : State} (clean : (part state).faults = []) :
    state.faults = [] :=
  (steady.leadsTo state).faults_of clean

/-- A production that acts in every state like a steady one is steady. -/
theorem of_forall (like : ∀ state, ∃ other, part state = other state ∧ IsSteady other) :
    IsSteady part where
  leadsTo state := by
    obtain ⟨other, same, steady⟩ := like state
    exact same ▸ steady.leadsTo state
  aligned := by
    intro text state aligned clean
    obtain ⟨other, same, steady⟩ := like state
    rw [same] at clean ⊢
    exact steady.aligned aligned clean

theorem nothing : IsSteady id := ⟨.refl, fun aligned _ => aligned⟩

/-- One production after the other, where the second may depend on where the first began. -/
theorem andThen_from {next : State → Production} (first : IsSteady part)
    (each : ∀ start, IsSteady (next start)) : IsSteady fun state => next state (part state) where
  leadsTo state := (first.leadsTo state).trans ((each state).leadsTo _)
  aligned aligned clean :=
    (each _).aligned (first.aligned aligned ((each _).faults_of clean)) clean

theorem andThen (first : IsSteady part) (next : IsSteady second) :
    IsSteady fun state => second (part state) :=
  first.andThen_from fun _ => next

theorem report (problem : GrammarProblem) : IsSteady (report problem) :=
  ⟨fun state => leadsTo_report state problem, .report⟩

theorem reportDepth : IsSteady reportDepth := ⟨leadsTo_reportDepth, .reportDepth⟩

theorem reject (problem : GrammarProblem) : IsSteady (reject problem) :=
  ⟨leadsTo_reject problem, .reject⟩

theorem flush : IsSteady flush := ⟨leadsTo_flush, fun aligned _ => aligned.flush⟩

theorem eat (role : TokenRole) : IsSteady (eat role) := ⟨leadsTo_eat role, .eat⟩

theorem skip : IsSteady skip := ⟨leadsTo_skip, .skip⟩

theorem bump (role : TokenRole) : IsSteady (bump role) := (eat role).andThen skip

theorem take : IsSteady take := bump .part

theorem descend (left : Nat) : IsSteady (descend left) :=
  ⟨fun _ => ⟨id, rfl, le_max_left _ _, le_refl _⟩,
    fun aligned _ => ⟨aligned.accepting, aligned.place, aligned.trees⟩⟩

theorem branch {kind : TreeKind} (steady : IsSteady part) : IsSteady (branch kind part) where
  leadsTo state := by
    have closed : (part state.opened).LeadsTo (Grammar.branch kind part state) :=
      .of_eq rfl rfl rfl rfl
    exact ((leadsTo_opened state).trans (steady.leadsTo _)).trans closed
  aligned aligned clean :=
    aligned.closed (steady.aligned (aligned.opened (steady.faults_of clean)) clean) kind

theorem leadsTo_perhapsNonNull (part : Production) (state : State) :
    (part { state.flush with children := [] }).skip.LeadsTo (perhapsNonNull part state) := by
  unfold Grammar.perhapsNonNull
  simp only
  split
  · refine (leadsTo_eat .part _).trans (.trans (.of_eq ?_ ?_ ?_ ?_) (leadsTo_skip _)) <;> rfl
  · refine .trans (.of_eq ?_ ?_ ?_ ?_) (leadsTo_skip _) <;> rfl

theorem perhapsNonNull (steady : IsSteady part) : IsSteady (perhapsNonNull part) where
  leadsTo state := by
    have emptied : state.flush.LeadsTo { state.flush with children := [] } := .of_eq rfl rfl rfl rfl
    have read := ((leadsTo_flush state).trans emptied).trans ((steady.andThen skip).leadsTo _)
    exact read.trans (leadsTo_perhapsNonNull part state)
  aligned := by
    intro text state aligned clean
    have read := (steady.andThen skip).aligned aligned.emptied
      ((leadsTo_perhapsNonNull part state).faults_of clean)
    unfold Grammar.perhapsNonNull at clean ⊢
    dsimp only at clean ⊢
    split_ifs at clean ⊢ with mark
    · have taken := (leadsTo_skip _).faults_of clean
      exact (aligned.closed (read.eat taken) .nonNullType).skip clean
    · exact (aligned.unwrapped read).skip clean

theorem repeatAlong {condition : State → Bool} (steady : IsSteady part) (lexemes : List Lexeme) :
    IsSteady fun state => Grammar.repeatAlong condition part lexemes state := by
  induction lexemes with
  | nil =>
      refine .of_forall fun state => ?_
      cases decided : condition state with
      | true => exact ⟨part, by simp [Grammar.repeatAlong, decided], steady⟩
      | false => exact ⟨id, by simp [Grammar.repeatAlong, decided], .nothing⟩
  | cons lexeme rest ih =>
      refine .of_forall fun state => ?_
      cases decided : condition state with
      | true => exact ⟨_, by rw [Grammar.repeatAlong, if_pos decided], steady.andThen ih⟩
      | false => exact ⟨id, by simp [Grammar.repeatAlong, decided], .nothing⟩

theorem repeatWhile {condition : State → Bool} (steady : IsSteady part) :
    IsSteady (repeatWhile condition part) :=
  .of_forall fun state =>
    ⟨fun other => Grammar.repeatAlong condition part state.upcoming other, rfl,
      steady.repeatAlong state.upcoming⟩

theorem choose {condition : State → Bool} (first : IsSteady part) (next : IsSteady second) :
    IsSteady (choose condition part second) := by
  refine .of_forall fun state => ?_
  cases decided : condition state with
  | true => exact ⟨part, by simp [Grammar.choose, decided], first⟩
  | false => exact ⟨second, by simp [Grammar.choose, decided], next⟩

theorem several {condition : State → Bool} (steady : IsSteady part) (problem : GrammarProblem) :
    IsSteady (several condition part problem) :=
  steady.repeatWhile.choose (.report problem)

theorem close (mark : ClosingMark) : IsSteady (close mark) := by
  refine .of_forall fun state => ?_
  cases current : state.current with
  | none => exact ⟨id, by simp [Grammar.close, current], .nothing⟩
  | some token =>
      by_cases here : token.kind = mark.kind
      · exact ⟨Grammar.take, by simp [Grammar.close, current, here], .take⟩
      · refine ⟨fun state => state.reportAbout (.closingMarkExpected mark
          (if token.kind == .endOfInput then none else some token.text)) token,
          by simp [Grammar.close, current, here], ⟨fun state => leadsTo_reportAbout _ _ _,
            .reportAbout⟩⟩

theorem separated {mark : TokenKind} (steady : IsSteady part) : IsSteady (separated mark part) :=
  (take.choose .nothing).andThen (steady.andThen (take.andThen steady).repeatWhile)

end IsSteady

/-! ## Productions that yield something -/

/-- A production is steady. Where it begins in a state of a certain kind and finds no problem,
reading goes on behind it, and it has added trees for which something holds. -/
structure Yields (before : State → Prop) (part : Production) (holds : List Tree → Prop) : Prop
    extends IsSteady part where
  reads : ∀ state, before state → state.IsLive → (part state).faults = [] →
    (part state).IsLive ∧ ∃ trees, (part state).told = trees.reverse ++ state.told ∧ holds trees

/-- Some trees are those of one thing, followed by those of another. -/
def Then (first second : List Tree → Prop) (trees : List Tree) : Prop :=
  ∃ front back, trees = front ++ back ∧ first front ∧ second back

/-- Some trees are those of several things of one kind. -/
inductive Many (each : List Tree → Prop) : List Tree → Prop where
  | nil : Many each []
  | cons {front back : List Tree} (first : each front) (rest : Many each back) :
      Many each (front ++ back)

/-- Some trees are one tree that stands for an item. -/
def Single {α : Type} (reads : Tree → α → Prop) (trees : List Tree) : Prop :=
  ∃ tree item, trees = [tree] ∧ reads tree item

theorem Many.mono {holds holds' : List Tree → Prop} {trees : List Tree} (many : Many holds trees)
    (weaker : ∀ trees, holds trees → holds' trees) : Many holds' trees := by
  induction many with
  | nil => exact .nil
  | cons first _ ih => exact .cons (weaker _ first) ih

/-- Many trees that stand for items each stand for items together. -/
theorem Many.exists_readsAll {α : Type} {reads : Tree → α → Prop} {trees : List Tree}
    (many : Many (Single reads) trees) : ∃ items, ReadsAll reads trees items := by
  induction many with
  | nil => exact ⟨[], .nil⟩
  | cons first _ ih =>
      obtain ⟨tree, item, rfl, reads⟩ := first
      obtain ⟨items, all⟩ := ih
      exact ⟨item :: items, .cons reads all⟩

/-- Some trees are none, or there are some for which something holds. -/
def Perhaps (holds : List Tree → Prop) (trees : List Tree) : Prop := trees = [] ∨ holds trees

/-- Some trees are a branch of a kind, for whose content something holds. -/
def Branched (kind : TreeKind) (holds : List Tree → Prop) (trees : List Tree) : Prop :=
  ∃ start stop children, trees = [.branch kind start stop children] ∧ holds (telling children)

/-- Trees for which nothing is claimed. -/
def Anything (_ : List Tree) : Prop := True

/-- No trees at all. -/
def Nothing (trees : List Tree) : Prop := trees = []

/-- Every state. -/
def Anywhere (_ : State) : Prop := True

/-- A condition still holds where the content of a branch begins. -/
def IsAhead (before : State → Prop) : Prop :=
  ∀ state : State, state.IsLive → before state → before state.opened

theorem isAhead_anywhere : IsAhead Anywhere := fun _ _ _ => trivial

/-- Conditions on what is yet to be read. -/
theorem isAhead_of_isSettled {before : State → Prop}
    (settled : ∀ state : State, state.IsLive → before state → state.IsSettled)
    (ahead : ∀ state other : State, state.current = other.current →
      state.upcoming = other.upcoming → before state → before other) : IsAhead before := by
  intro state live here
  rw [(settled state live here).opened_eq]
  exact ahead state _ (by simp) (by simp) here

theorem isAhead_isAt {kind : TokenKind} (kept : kind.isIgnored = false) :
    IsAhead fun state => state.isAt kind = true :=
  isAhead_of_isSettled (fun _ _ here => isSettled_of_isAt here kept)
    fun state other current _ here => by rwa [isAt, kind?, ← current]

theorem isAhead_isAtText {text : String} (word : text.toList.head?.any isNameStart = true) :
    IsAhead fun state => state.isAtText text = true :=
  isAhead_of_isSettled (fun _ live here => live.isSettled_of_isAtText here word)
    fun state other current _ here => by rwa [isAtText, ← current]

namespace Yields

variable {before before' : State → Prop} {part second : Production}
  {holds holds' : List Tree → Prop}

/-! ### General rules -/

theorem mono (yields : Yields before part holds) (weaker : ∀ trees, holds trees → holds' trees) :
    Yields before part holds' where
  toIsSteady := yields.toIsSteady
  reads state here live clean := by
    obtain ⟨goes_on, trees, told, found⟩ := yields.reads state here live clean
    exact ⟨goes_on, trees, told, weaker trees found⟩

/-- Where a production begins may be narrowed down, also by what is known where reading goes on. -/
theorem narrow (yields : Yields before part holds)
    (narrower : ∀ state : State, state.IsLive → before' state → before state) :
    Yields before' part holds where
  toIsSteady := yields.toIsSteady
  reads state here live clean := yields.reads state (narrower state live here) live clean

/-- What yields something wherever it begins is steady. -/
theorem steady (yields : Yields Anywhere part holds) : IsSteady part := yields.toIsSteady

theorem anything (yields : Yields before part holds) : Yields before part Anything :=
  yields.mono fun _ _ => trivial

theorem anywhere (yields : Yields Anywhere part holds) : Yields before part holds :=
  yields.narrow fun _ _ _ => trivial

/-- A production that acts in every state like one that yields something yields it too. -/
theorem of_forall (like : ∀ state, ∃ other condition, part state = other state ∧
      Yields condition other holds ∧ (before state → state.IsLive → condition state)) :
    Yields before part holds where
  toIsSteady := .of_forall fun state => by
    obtain ⟨other, condition, same, yields, _⟩ := like state
    exact ⟨other, same, yields.toIsSteady⟩
  reads state here live clean := by
    obtain ⟨other, condition, same, yields, holds_here⟩ := like state
    rw [same] at clean ⊢
    exact yields.reads state (holds_here here live) live clean

/-- Doing nothing adds nothing. -/
theorem nothing : Yields before id Nothing where
  toIsSteady := .nothing
  reads _ _ live _ := ⟨live, [], rfl, rfl⟩

/-- One production after the other, where the second may depend on where the first began. -/
theorem andThen_from {next : State → Production} (first : Yields before part holds)
    (each : ∀ start, Yields Anywhere (next start) holds') :
    Yields before (fun state => next state (part state)) (Then holds holds') where
  toIsSteady := first.toIsSteady.andThen_from fun start => (each start).toIsSteady
  reads state here live clean := by
    obtain ⟨goes_on, front, told, found⟩ :=
      first.reads state here live ((each state).faults_of clean)
    obtain ⟨goes_on', back, told', found'⟩ := (each state).reads _ trivial goes_on clean
    refine ⟨goes_on', front ++ back, ?_, front, back, rfl, found, found'⟩
    rw [told', told, List.reverse_append, List.append_assoc]

/-- One production after the other. -/
theorem andThen (first : Yields before part holds) (next : Yields Anywhere second holds') :
    Yields before (fun state => second (part state)) (Then holds holds') :=
  first.andThen_from fun _ => next

/-- A production that adds nothing in front of others. -/
theorem silently (first : Yields before part Nothing) (next : Yields Anywhere second holds) :
    Yields before (fun state => second (part state)) holds := by
  refine (first.andThen next).mono fun trees found => ?_
  obtain ⟨front, back, rfl, rfl, found⟩ := found
  exact found

theorem sequence_cons {parts : List Production} (first : Yields before part holds)
    (rest : Yields Anywhere (sequence parts) holds') :
    Yields before (sequence (part :: parts)) (Then holds holds') :=
  first.andThen rest

theorem sequence_silent {parts : List Production} (first : Yields before part Nothing)
    (rest : Yields Anywhere (sequence parts) holds) :
    Yields before (sequence (part :: parts)) holds :=
  first.silently rest

/-- The last production of a sequence. -/
theorem sequence_last (yields : Yields before part holds) :
    Yields before (sequence [part]) holds :=
  yields

theorem of_choose {condition : State → Bool}
    (yes : Yields (fun state => before state ∧ condition state = true) part holds)
    (no : Yields (fun state => before state ∧ condition state = false) second holds) :
    Yields before (choose condition part second) holds := by
  refine of_forall fun state => ?_
  cases decided : condition state with
  | true => exact ⟨part, _, by simp [choose, decided], yes, fun here _ => ⟨here, decided⟩⟩
  | false => exact ⟨second, _, by simp [choose, decided], no, fun here _ => ⟨here, decided⟩⟩

theorem of_whenever {condition : State → Bool}
    (yes : Yields (fun state => condition state = true) part holds) :
    Yields before (whenever condition part) (Perhaps holds) :=
  of_choose ((yes.narrow fun _ _ here => here.2).mono fun _ found => .inr found)
    (nothing.mono fun _ found => .inl found)

/-- Where its condition is known to hold, a production is used. -/
theorem whenever_at {condition : State → Bool}
    (yes : Yields (fun state => condition state = true) part holds)
    (here : ∀ state, before state → condition state = true) :
    Yields before (whenever condition part) holds :=
  of_choose (yes.narrow fun _ _ here => here.2)
    ⟨.nothing, fun state known => by
      rw [here state known.1] at known
      exact absurd known.2.symm Bool.false_ne_true⟩

theorem of_whenAt {kind : TokenKind}
    (yes : Yields (fun state => state.isAt kind = true) part holds) :
    Yields before (whenAt kind part) (Perhaps holds) :=
  of_whenever yes

/-! ### Problems -/

/-- What comes after a problem does not matter. -/
theorem never_then (first : Yields before part fun _ => False)
    (next : Yields before' second holds') :
    Yields before (fun state => second (part state)) holds where
  toIsSteady := first.toIsSteady.andThen next.toIsSteady
  reads state here live clean := by
    obtain ⟨_, _, _, never⟩ := first.reads state here live (next.faults_of clean)
    exact never.elim

theorem of_report (problem : GrammarProblem) : Yields before (report problem) holds where
  toIsSteady := .report problem
  reads _ _ live clean := absurd clean (live.faults_report problem)

/-- A part that must be there: it is used where its condition holds, and its absence is noted. -/
theorem of_required {condition : State → Bool} {problem : GrammarProblem}
    (yes : Yields (fun state => condition state = true) part holds) :
    Yields before (choose condition part (report problem)) holds :=
  of_choose (yes.narrow fun _ _ here => here.2) (of_report problem)

theorem of_reportDepth : Yields before reportDepth holds where
  toIsSteady := .reportDepth
  reads state _ live clean := by
    obtain ⟨token, current, _⟩ := live.supply
    simp only [reportDepth, current, if_pos live.accepting] at clean
    cases clean

theorem of_reject (problem : GrammarProblem) : Yields before (reject problem) holds where
  toIsSteady := .reject problem
  reads state _ live clean := by
    obtain ⟨token, current, _⟩ := live.supply
    unfold reject State.reject at clean
    simp only [current_flush, current] at clean
    have accepting : (state.flush.push .rejected token).accepting = true := by
      simp [push, live.accepting]
    have reported := faults_of_seek _ ((leadsTo_skip _).faults_of clean)
    rw [reportAbout, if_pos accepting] at reported
    cases reported

/-! ### Tokens -/

/-- Taking a token adds its leaf, if that tells something. -/
theorem of_eat (about : Token → Prop) (role : TokenRole)
    (known : ∀ state token, before state → state.current = some token → token.IsSpelled →
      about token) (inside : ∀ state : State, state.IsLive → before state → state.IsInside) :
    Yields before (eat role) fun trees => ∃ token place, about token ∧
      trees = telling [.leaf role token.text place] where
  toIsSteady := .eat role
  reads state here live clean := by
    obtain ⟨token, place, current, spelled, goes_on, children⟩ :=
      live.eat (inside state live here) clean
    refine ⟨goes_on, _, ?_, token, place, known state token here current spelled, rfl⟩
    rw [told, children, ← List.singleton_append, Tree.telling_append, ← told, told_flush]
    cases tells : Tree.tells (.leaf role token.text place) with
    | true => rw [Tree.telling_cons_of_tells _ tells]; rfl
    | false => rw [Tree.telling_cons_of_not_tells _ tells]; rfl

theorem of_skip : Yields before skip Nothing where
  toIsSteady := .skip
  reads _ _ live clean := ⟨live.skip clean, [], told_skip, rfl⟩

theorem of_bump (about : Token → Prop) (role : TokenRole)
    (known : ∀ state token, before state → state.current = some token → token.IsSpelled →
      about token) (inside : ∀ state : State, state.IsLive → before state → state.IsInside) :
    Yields before (bump role) fun trees => ∃ token place, about token ∧
      trees = telling [.leaf role token.text place] := by
  refine ((of_eat about role known inside).andThen of_skip).mono ?_
  rintro trees ⟨front, back, rfl, found, rfl⟩
  rwa [List.append_nil]

/-- Punctuation and words of the grammar tell nothing. -/
theorem of_take (inside : ∀ state : State, state.IsLive → before state → state.IsInside) :
    Yields before take Nothing :=
  (of_bump (fun _ => True) .part (fun _ _ _ _ _ => trivial) inside).mono
    fun _ ⟨_, _, _, found⟩ => found

theorem take_inside : Yields IsInside take Nothing := of_take fun _ _ inside => inside

theorem take_isAt {kind : TokenKind} (other : kind ≠ .endOfInput) :
    Yields (fun state => state.isAt kind = true) take Nothing :=
  of_take fun _ _ here => isInside_of_isAt here other

theorem take_isAtText {text : String} (some : text ≠ "") :
    Yields (fun state => state.isAtText text = true) take Nothing :=
  of_take fun _ live here => live.isInside_of_isAtText here some

theorem of_keyword {word : String} (some : word ≠ "") : Yields before (keyword word) Nothing :=
  (of_whenever (take_isAtText some)).mono fun _ found => found.elim id id

theorem of_descend (left : Nat) : Yields before (descend left) Nothing where
  toIsSteady := .descend left
  reads _ _ live _ := ⟨⟨live.accepting, live.supply⟩, [], rfl, rfl⟩

/-- A closing mark is taken, or else a problem is noted. -/
theorem of_close (mark : ClosingMark) : Yields before (close mark) Nothing := by
  refine of_forall fun state => ?_
  cases current : state.current with
  | none =>
      refine ⟨id, fun _ => True, by simp [close, current], nothing, fun _ _ => trivial⟩
  | some token =>
      by_cases here : token.kind = mark.kind
      · refine ⟨take, fun state => state.isAt mark.kind = true, by simp [close, current, here],
          take_isAt (by cases mark <;> simp [ClosingMark.kind]), fun _ _ => ?_⟩
        simp [isAt, kind?, current, here]
      · refine ⟨report (.closingMarkExpected mark
            (if token.kind == .endOfInput then none else some token.text)), fun _ => True,
          ?_, of_report _, fun _ _ => trivial⟩
        simp [close, current, here, report, State.report]

/-! ### Branches -/

/-- What a production adds below a branch. -/
theorem below (ahead : IsAhead before) (yields : Yields before part holds) {state : State}
    (here : before state) (live : state.IsLive) (clean : (part state.opened).faults = []) :
    (part state.opened).IsLive ∧ ∃ trees,
      (part state.opened).told = trees.reverse ∧ holds trees := by
  obtain ⟨goes_on, trees, told, found⟩ := yields.reads state.opened (ahead state live here)
    (live.opened (yields.faults_of clean)) clean
  refine ⟨goes_on, trees, ?_, found⟩
  rw [told, told_opened, List.append_nil]

theorem of_branch {kind : TreeKind} (ahead : IsAhead before) (yields : Yields before part holds) :
    Yields before (branch kind part) (Branched kind holds) where
  toIsSteady := yields.toIsSteady.branch
  reads state here live clean := by
    obtain ⟨goes_on, trees, told, found⟩ := yields.below ahead here live clean
    refine ⟨⟨goes_on.accepting, goes_on.supply⟩, [_], told_branch kind part state, _, _, _, rfl, ?_⟩
    rw [Tree.telling_reverse, ← State.told, told, List.reverse_reverse]
    exact found

/-- A branch of a single token. -/
theorem branch_take (kind : TreeKind) (about : Token → Prop)
    (known : ∀ state token, before state → state.current = some token → token.IsSpelled →
      about token) (inside : ∀ state : State, state.IsLive → before state → state.IsInside)
    (settled : ∀ state : State, state.IsLive → before state → state.IsSettled)
    (ahead : IsAhead before) :
    Yields before (branch kind take) fun trees => ∃ token start stop place, about token ∧
      trees = [.branch kind start stop [.leaf .part token.text place]] where
  toIsSteady := IsSteady.take.branch
  reads state here live clean := by
    have opened := live.opened (IsSteady.take.faults_of clean)
    have here' := ahead state live here
    obtain ⟨token, place, current, spelled, goes_on, children⟩ :=
      opened.eat (inside _ opened here') ((leadsTo_skip _).faults_of clean)
    have closed := goes_on.skip clean
    refine ⟨⟨closed.accepting, closed.supply⟩, [_], told_branch kind take state, token,
      state.flush.length, (take state.opened).length, place,
      known _ token here' current spelled, ?_⟩
    have content : (take state.opened).children = [.leaf .part token.text place] := by
      rw [take, bump, children_skip, children, (settled state live here).children_flush_opened]
    rw [content]
    rfl

/-- What becomes the content of a non-null type if an exclamation mark follows. -/
theorem of_perhapsNonNull (settled : ∀ state : State, state.IsLive → before state → state.IsSettled)
    (ahead : IsAhead before) (yields : Yields before part holds) :
    Yields before (perhapsNonNull part) fun trees =>
      holds trees ∨ Branched .nonNullType holds trees where
  toIsSteady := yields.toIsSteady.perhapsNonNull
  reads state here live clean := by
    unfold perhapsNonNull at clean ⊢
    simp only [← (settled state live here).opened_eq] at clean ⊢
    split_ifs at clean ⊢ with mark
    · have taken := (leadsTo_skip _).faults_of clean
      have read := (leadsTo_eat _ _).faults_of taken
      have clean' := (leadsTo_skip _).faults_of read
      obtain ⟨goes_on, trees, told, found⟩ := yields.below ahead here live clean'
      obtain ⟨token, place, _, _, closed, children⟩ :=
        (goes_on.skip read).eat (isInside_of_isAt mark (by simp)) taken
      refine ⟨IsLive.skip ⟨closed.accepting, closed.supply⟩ clean,
        [.branch .nonNullType state.flush.length ((part state.opened).skip.eat .part).length
          ((part state.opened).skip.eat .part).children.reverse], ?_, .inr ⟨_, _, _, rfl, ?_⟩⟩
      · rw [told_skip, State.told, telling_cons_of_tells _ rfl, ← State.told, told_flush]
        rfl
      · rw [telling_reverse, children, telling_cons_of_not_tells _ rfl, ← State.told, told_flush,
          told_skip, told, List.reverse_reverse]
        exact found
    · have skipped := (leadsTo_skip _).faults_of clean
      have clean' := (leadsTo_skip _).faults_of skipped
      obtain ⟨goes_on, trees, told, found⟩ := yields.below ahead here live clean'
      have read := goes_on.skip skipped
      refine ⟨IsLive.skip ⟨read.accepting, read.supply⟩ clean, trees, ?_, .inl found⟩
      rw [told_skip, State.told, telling_append, ← State.told, ← State.told, told_flush, told_skip,
        told]

/-! ### Repetition -/

theorem of_repeatAlong {condition : State → Bool}
    (yields : Yields (fun state => condition state = true) part holds) (lexemes : List Lexeme) :
    Yields Anywhere (fun state => repeatAlong condition part lexemes state) (Many holds) := by
  induction lexemes with
  | nil =>
      have once : Yields Anywhere (whenever condition part) (Many holds) := by
        refine (of_whenever yields).mono fun trees found => ?_
        rcases found with rfl | found
        · exact .nil
        · exact List.append_nil trees ▸ .cons found .nil
      exact of_forall fun state => ⟨_, _, by rw [repeatAlong]; rfl, once, fun _ _ => trivial⟩
  | cons lexeme rest ih =>
      refine of_forall fun state => ?_
      cases decided : condition state with
      | true =>
          refine ⟨_, _, by simp [repeatAlong, decided], (yields.andThen ih).mono ?_,
            fun _ _ => decided⟩
          rintro trees ⟨front, back, rfl, first, many⟩
          exact .cons first many
      | false =>
          refine ⟨id, Anywhere, by simp [repeatAlong, decided], nothing.mono ?_,
            fun _ _ => trivial⟩
          rintro trees rfl
          exact .nil

/-- What is repeated yields many times what it yields once. -/
theorem of_repeatWhile {condition : State → Bool}
    (yields : Yields (fun state => condition state = true) part holds) :
    Yields before (repeatWhile condition part) (Many holds) :=
  of_forall fun state =>
    ⟨fun other => repeatAlong condition part state.upcoming other, Anywhere, rfl,
      of_repeatAlong yields state.upcoming, fun _ _ => trivial⟩

theorem of_several {condition : State → Bool}
    (yields : Yields (fun state => condition state = true) part holds)
    (problem : GrammarProblem) : Yields before (several condition part problem) (Many holds) :=
  of_choose (of_repeatWhile yields) (of_report problem)

/-- A list with separators has at least one item. -/
theorem of_separated {mark : TokenKind} (other : mark ≠ .endOfInput)
    (yields : Yields Anywhere part holds) :
    Yields before (separated mark part) (Then holds (Many holds)) := by
  refine sequence_silent ((of_whenAt (take_isAt other)).mono fun _ found => found.elim id id) ?_
  exact sequence_cons yields
    (sequence_last (of_repeatWhile (sequence_silent (take_isAt other) (sequence_last yields))))

/-- One part of `someOf`, with whether some part was used before. -/
def tryPart (reached : State × Bool) (part : (State → Bool) × Production) : State × Bool :=
  if part.1 reached.1 then (part.2 reached.1, true) else reached

theorem foldl_tryPart_fst (parts : List ((State → Bool) × Production)) (reached : State × Bool) :
    (parts.foldl tryPart reached).1 =
      sequence (parts.map fun part => whenever part.1 part.2) reached.1 := by
  induction parts generalizing reached with
  | nil => rfl
  | cons part rest ih =>
      rw [List.foldl_cons, List.map_cons, ih]
      show _ = sequence _ (whenever part.1 part.2 reached.1)
      cases decided : part.1 reached.1 <;> simp [tryPart, whenever, choose, decided]

theorem someOf_eq (problem : GrammarProblem) (parts : List ((State → Bool) × Production))
    (state : State) : someOf problem parts state =
      if (parts.foldl tryPart (state, false)).2 then (parts.foldl tryPart (state, false)).1
      else (parts.foldl tryPart (state, false)).1.report problem :=
  rfl

/-- Parts of which at least one must be there yield what they yield one after the other. -/
theorem of_someOf (problem : GrammarProblem) {parts : List ((State → Bool) × Production)}
    (yields : Yields before (sequence (parts.map fun part => whenever part.1 part.2)) holds) :
    Yields before (someOf problem parts) holds := by
  refine of_forall fun state => ?_
  rw [someOf_eq, foldl_tryPart_fst]
  cases (parts.foldl tryPart (state, false)).2 with
  | true => exact ⟨_, _, rfl, yields, fun here _ => here⟩
  | false =>
      have never : Yields Anywhere (report problem) fun _ => False := of_report problem
      refine ⟨_, _, rfl, (yields.andThen never).mono ?_, fun here _ => here⟩
      rintro trees ⟨_, _, _, _, impossible⟩
      exact impossible.elim

end Yields

end Grammar

end SchemaGraft
