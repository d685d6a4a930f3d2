import SchemaGraft.Grammar.Document
import SchemaGraft.Proofs.Reading.Lexemes
import SchemaGraft.Proofs.Reading.Trees

/-!
# States of reading

A state of reading says how far reading has come, and each step leads on from there
(`State.LeadsTo`): no problem is taken back, no lexeme is given back, the depth that was tried only
grows, and the limit on it stays.

It matters that problems are noticed at all. A problem is noted about the token at hand, so nothing
is noted once there is none. This cannot happen as long as the end of the input is not taken away
(`State.IsLive`).
-/

set_option autoImplicit false

namespace SchemaGraft

open SchemaGraft.Tree

namespace Grammar

namespace State

/-! ## States in which reading goes on -/

/-- The trees that tell something in the branch that is being built, latest first. -/
def told (state : State) : List Tree := Tree.telling state.children

/-- Problems are noted, and there is a token to note them about. -/
structure IsLive (state : State) : Prop where
  accepting : state.accepting = true
  supply : ∃ token, state.current = some token ∧ Supply (.token token :: state.upcoming)

/-- The current token is not the end of the input. -/
def IsInside (state : State) : Prop := state.isAt .endOfInput = false

theorem isInside_of_isAt {state : State} {kind : TokenKind} (here : state.isAt kind = true)
    (other : kind ≠ .endOfInput) : state.IsInside := by
  rw [isAt, beq_iff_eq] at here
  simp [IsInside, isAt, here, other]

/-- The end of the input has no text. -/
theorem IsLive.isInside_of_isAtText {state : State} (live : state.IsLive) {text : String}
    (here : state.isAtText text = true) (some : text ≠ "") : state.IsInside := by
  obtain ⟨token, current, supply⟩ := live.supply
  simp only [isAtText, current, Option.any_some, beq_iff_eq] at here
  have other : token.kind ≠ .endOfInput :=
    fun ends => some (here ▸ supply.isSpelled.endOfInput ends)
  simp [IsInside, isAt, kind?, current, other]

/-! ## Where steps lead -/

/-- What is true of any two states of which the second comes after the first. -/
structure LeadsTo (before after : State) : Prop where
  /-- No problem is taken back. -/
  faults_of : after.faults = [] → before.faults = []
  depthLimit_eq : after.depthLimit = before.depthLimit
  deepest_le : before.deepest ≤ after.deepest
  /-- No lexeme is given back. -/
  upcoming_le : after.upcoming.length ≤ before.upcoming.length

theorem LeadsTo.refl (state : State) : state.LeadsTo state := ⟨id, rfl, le_refl _, le_refl _⟩

theorem LeadsTo.trans {first second third : State} (front : first.LeadsTo second)
    (back : second.LeadsTo third) : first.LeadsTo third where
  faults_of clean := front.faults_of (back.faults_of clean)
  depthLimit_eq := back.depthLimit_eq.trans front.depthLimit_eq
  deepest_le := le_trans front.deepest_le back.deepest_le
  upcoming_le := le_trans back.upcoming_le front.upcoming_le

/-- Where no problem is noted, no depth is tried and nothing is read, one state leads to another. -/
theorem LeadsTo.of_eq {before after : State} (faults : after.faults = before.faults)
    (depthLimit : after.depthLimit = before.depthLimit) (deepest : after.deepest = before.deepest)
    (upcoming : after.upcoming = before.upcoming) : before.LeadsTo after :=
  ⟨fun clean => faults ▸ clean, depthLimit, deepest ▸ le_refl _, upcoming ▸ le_refl _⟩

/-! ## Steps -/

section Steps

variable (state : State)

/-- Taking in what was passed over adds nothing that tells something. -/
theorem exists_flush_eq : ∃ leaves length, state.flush =
      { state with ignored := [], children := leaves ++ state.children, length := length } ∧
    Tree.telling leaves = [] := by
  have general : ∀ (tokens : List Token) (other : State), ∃ leaves length,
      tokens.foldl (fun state token => state.push .ignored token) other =
        { other with children := leaves ++ other.children, length := length } ∧
      Tree.telling leaves = [] := by
    intro tokens
    induction tokens with
    | nil => exact fun other => ⟨[], other.length, rfl, rfl⟩
    | cons token rest ih =>
        intro other
        obtain ⟨leaves, length, same, silent⟩ := ih (other.push .ignored token)
        refine ⟨leaves ++ [.leaf .ignored token.text other.length], length, ?_, ?_⟩
        · rw [List.foldl_cons, same]
          simp [push]
        · rw [Tree.telling_append, silent]
          rfl
  obtain ⟨leaves, length, same, silent⟩ :=
    general state.ignored.reverse { state with ignored := [] }
  exact ⟨leaves, length, same, silent⟩

@[simp]
theorem current_flush : state.flush.current = state.current := by
  obtain ⟨leaves, length, same, _⟩ := exists_flush_eq state
  rw [same]

@[simp]
theorem upcoming_flush : state.flush.upcoming = state.upcoming := by
  obtain ⟨leaves, length, same, _⟩ := exists_flush_eq state
  rw [same]

@[simp]
theorem faults_flush : state.flush.faults = state.faults := by
  obtain ⟨leaves, length, same, _⟩ := exists_flush_eq state
  rw [same]

@[simp]
theorem accepting_flush : state.flush.accepting = state.accepting := by
  obtain ⟨leaves, length, same, _⟩ := exists_flush_eq state
  rw [same]

@[simp]
theorem ignored_flush : state.flush.ignored = [] := by
  obtain ⟨leaves, length, same, _⟩ := exists_flush_eq state
  rw [same]

@[simp]
theorem depthLimit_flush : state.flush.depthLimit = state.depthLimit := by
  obtain ⟨leaves, length, same, _⟩ := exists_flush_eq state
  rw [same]

@[simp]
theorem deepest_flush : state.flush.deepest = state.deepest := by
  obtain ⟨leaves, length, same, _⟩ := exists_flush_eq state
  rw [same]

theorem leadsTo_flush : state.LeadsTo state.flush :=
  .of_eq (by simp) (by simp) (by simp) (by simp)

@[simp]
theorem told_flush : state.flush.told = state.told := by
  obtain ⟨leaves, length, same, silent⟩ := exists_flush_eq state
  rw [same, told, Tree.telling_append, silent]
  rfl

/-- Reading on changes neither the tree nor its length, whatever is passed over. -/
theorem children_seek (passing : Bool) (lexemes : List Lexeme) :
    (seek passing state lexemes).children = state.children := by
  fun_induction seek passing state lexemes with
  | case1 => rfl
  | case2 state fault rest ih => rw [ih]; rfl
  | case3 state token rest skipped ih => rw [ih]; rfl
  | case4 => rfl

theorem leadsTo_note (fault : SyntaxFault) : state.LeadsTo (state.note fault) :=
  ⟨fun clean => absurd clean (List.cons_ne_nil _ _), rfl, le_refl _, le_refl _⟩

theorem leadsTo_setAside (token : Token) : state.LeadsTo (state.setAside token) :=
  .of_eq rfl rfl rfl rfl

theorem leadsTo_push (role : TokenRole) (token : Token) : state.LeadsTo (state.push role token) :=
  .of_eq rfl rfl rfl rfl

theorem faults_of_seek {passing : Bool} {lexemes : List Lexeme}
    (clean : (seek passing state lexemes).faults = []) : state.faults = [] := by
  fun_induction seek passing state lexemes with
  | case1 | case4 => exact clean
  | case2 state fault rest ih => exact (leadsTo_note _ _).faults_of (ih clean)
  | case3 state token rest skipped ih => exact ih clean

/-- Reading on leads on where it goes through lexemes that are still to come. -/
theorem leadsTo_seek (passing : Bool) {lexemes : List Lexeme}
    (upcoming : lexemes.length ≤ state.upcoming.length) :
    state.LeadsTo (seek passing state lexemes) := by
  fun_induction seek passing state lexemes with
  | case1 => exact ⟨id, rfl, le_refl _, upcoming⟩
  | case2 state fault rest ih =>
      exact (leadsTo_note state _).trans (ih (le_trans (Nat.le_succ _) upcoming))
  | case3 state token rest skipped ih =>
      exact (leadsTo_setAside state token).trans (ih (le_trans (Nat.le_succ _) upcoming))
  | case4 state token rest kept => exact ⟨id, rfl, le_refl _, le_trans (Nat.le_succ _) upcoming⟩

theorem leadsTo_next : state.LeadsTo state.next := leadsTo_seek state false (le_refl _)

/-- Reading on in a supply comes to a token, if it does not come past rejected text. -/
theorem isLive_seek {passing : Bool} {lexemes : List Lexeme} (supply : Supply lexemes)
    (accepting : state.accepting = true) (clean : (seek passing state lexemes).faults = []) :
    (seek passing state lexemes).IsLive := by
  fun_induction seek passing state lexemes with
  | case1 => cases supply
  | case2 state fault rest ih => cases faults_of_seek _ clean
  | case3 state token rest skipped ih =>
      cases supply with
      | last ends spelled =>
          rw [ends] at skipped
          cases (Bool.and_eq_true _ _ ▸ skipped).2
      | token goes_on spelled supply => exact ih supply accepting clean
  | case4 state token rest kept => exact ⟨accepting, token, rfl, supply⟩

/-! ### What steps do where reading goes on -/

variable {state}

theorem faults_note (fault : SyntaxFault) : (state.note fault).faults ≠ [] :=
  List.cons_ne_nil _ _

theorem leadsTo_reportAbout (state : State) (problem : GrammarProblem) (token : Token) :
    state.LeadsTo (state.reportAbout problem token) := by
  unfold reportAbout
  split
  · exact leadsTo_note _ _
  · exact .refl _

theorem leadsTo_report (state : State) (problem : GrammarProblem) :
    state.LeadsTo (state.report problem) := by
  unfold State.report
  split
  · exact leadsTo_reportAbout _ _ _
  · exact .refl _

theorem leadsTo_reportDepth (state : State) : state.LeadsTo state.reportDepth := by
  unfold reportDepth
  split
  · split
    · exact leadsTo_note _ _
    · exact .refl _
  · exact .refl _

/-- Where reading goes on, problems are noted. -/
theorem IsLive.faults_reportAbout (live : state.IsLive) (problem : GrammarProblem)
    (token : Token) : (state.reportAbout problem token).faults ≠ [] := by
  rw [reportAbout, if_pos live.accepting]
  exact faults_note _

theorem IsLive.faults_report (live : state.IsLive) (problem : GrammarProblem) :
    (state.report problem).faults ≠ [] := by
  obtain ⟨token, current, _⟩ := live.supply
  rw [State.report, current]
  exact live.faults_reportAbout problem token

theorem IsLive.flush (live : state.IsLive) : state.flush.IsLive := by
  obtain ⟨token, current, supply⟩ := live.supply
  exact ⟨by rw [accepting_flush, live.accepting], token, by rw [current_flush, current],
    by rw [upcoming_flush]; exact supply⟩

theorem leadsTo_skip (state : State) : state.LeadsTo state.skip := by
  unfold skip
  split
  · split
    · exact (leadsTo_setAside state _).trans (leadsTo_seek _ true (le_refl _))
    · exact .refl _
  · exact .refl _

@[simp]
theorem told_skip : state.skip.told = state.told := by
  unfold skip
  split
  · split
    · rw [told, children_seek]
      rfl
    · rfl
  · rfl

theorem children_skip : state.skip.children = state.children := by
  unfold skip
  split
  · split
    · rw [children_seek]
      rfl
    · rfl
  · rfl

theorem IsLive.skip (live : state.IsLive) (clean : state.skip.faults = []) :
    state.skip.IsLive := by
  obtain ⟨token, current, supply⟩ := live.supply
  unfold State.skip at clean ⊢
  rw [current] at clean ⊢
  simp only at clean ⊢
  split_ifs at clean ⊢ with ignored
  · refine isLive_seek _ (supply.tail fun ends => ?_) live.accepting clean
    rw [ends] at ignored
    cases ignored
  · exact live

theorem leadsTo_eat (role : TokenRole) (state : State) : state.LeadsTo (state.eat role) := by
  unfold eat
  simp only
  split
  · exact ((leadsTo_flush state).trans (leadsTo_push _ _ _)).trans (leadsTo_next _)
  · exact leadsTo_flush state

theorem leadsTo_reject (problem : GrammarProblem) (state : State) :
    state.LeadsTo (state.reject problem) := by
  unfold State.reject
  simp only
  split
  · have taken := (leadsTo_flush state).trans (leadsTo_push _ .rejected ‹Token›)
    have reported := taken.trans (leadsTo_reportAbout _ problem ‹Token›)
    exact (reported.trans (leadsTo_next _)).trans (leadsTo_skip _)
  · exact leadsTo_flush state

/-- A token is taken from where reading goes on, and reading goes on behind it. -/
theorem IsLive.eat (live : state.IsLive) (inside : state.IsInside) {role : TokenRole}
    (clean : (state.eat role).faults = []) :
    ∃ token place, state.current = some token ∧ token.IsSpelled ∧ (state.eat role).IsLive ∧
      (state.eat role).children = .leaf role token.text place :: state.flush.children := by
  obtain ⟨token, current, supply⟩ := live.supply
  have goes_on : token.kind ≠ .endOfInput := by
    intro ends
    simp [IsInside, isAt, kind?, current, ends] at inside
  unfold State.eat at clean ⊢
  simp only [current_flush, current] at clean ⊢
  refine ⟨token, state.flush.length, rfl, supply.isSpelled, ?_, children_seek _ _ _⟩
  refine isLive_seek _ ?_ (by simp [push, live.accepting]) clean
  simpa [push] using supply.tail goes_on

/-! ### Looking ahead -/

/-- Reading on does not depend on where reading has come. -/
theorem seek_with (passing : Bool) (state : State) (current : Option Token)
    (upcoming lexemes : List Lexeme) :
    seek passing { state with current := current, upcoming := upcoming } lexemes =
      seek passing state lexemes := by
  induction lexemes generalizing state with
  | nil => rfl
  | cons lexeme rest ih =>
      cases lexeme with
      | rejected fault => exact ih (state.note _)
      | token token =>
          rw [seek, seek]
          split
          · exact ih (state.setAside token)
          · rfl

/-- Passing over ignored tokens after reading on is reading on past them. -/
theorem skip_seek (state : State) (lexemes : List Lexeme) :
    (seek false state lexemes).skip = seek true state lexemes := by
  induction lexemes generalizing state with
  | nil => rfl
  | cons lexeme rest ih =>
      cases lexeme with
      | rejected fault => exact ih (state.note _)
      | token token =>
          rw [seek, seek, Bool.false_and, if_neg Bool.false_ne_true, Bool.true_and, skip]
          simp only
          split
          · exact seek_with true (state.setAside token) _ _ _
          · rfl

/-- Past what is ignored, reading on comes to a token that is seen from before. -/
theorem isInside_seek {state : State} {lexemes : List Lexeme} {token : Token}
    (supply : Supply lexemes) (clean : (seek true state lexemes).faults = [])
    (first : firstVisible? lexemes = some token) (visible : token.IsSpelled → token.IsVisible) :
    (seek true state lexemes).IsInside := by
  fun_induction seek true state lexemes with
  | case1 => cases first
  | case2 state fault rest ih => cases faults_of_seek _ clean
  | case3 state other rest skipped ih =>
      rw [Bool.true_and] at skipped
      rw [firstVisible?] at first
      split_ifs at first with blank
      · refine ih (supply.tail fun ends => ?_) clean first
        rw [ends] at skipped
        cases skipped
      · cases first
        rw [(visible supply.isSpelled).kept] at skipped
        cases skipped
  | case4 state other rest kept =>
      have shown : (other.kind == .whitespace || other.kind == .comment) = false := by
        cases kind : other.kind <;> simp_all [TokenKind.isIgnored]
      rw [firstVisible?, shown, if_neg Bool.false_ne_true] at first
      cases first
      simp [IsInside, isAt, kind?, (visible supply.isSpelled).goes_on]

/-- Taking a token leads to the one that was seen behind it. -/
theorem IsLive.isInside_bump {state : State} (live : state.IsLive) (inside : state.IsInside)
    {role : TokenRole} (clean : (state.bump role).faults = []) {token : Token}
    (follows : state.following? = some token) (visible : token.IsSpelled → token.IsVisible) :
    (state.bump role).IsInside := by
  obtain ⟨first, current, supply⟩ := live.supply
  have goes_on : first.kind ≠ .endOfInput := by
    intro ends
    simp [IsInside, isAt, kind?, current, ends] at inside
  have same : state.bump role =
      seek true (state.flush.push role first) state.upcoming := by
    rw [← skip_seek]
    simp [State.bump, State.eat, State.next, current, push]
  rw [same] at clean ⊢
  exact isInside_seek (supply.tail goes_on) clean follows visible

/-! ### Skipping beside a branch -/

theorem seek_with_children (passing : Bool) (state : State) (children : List Tree)
    (lexemes : List Lexeme) : seek passing { state with children := children } lexemes =
      { seek passing state lexemes with children := children } := by
  induction lexemes generalizing state with
  | nil => rfl
  | cons lexeme rest ih =>
      cases lexeme with
      | rejected fault => exact ih (state.note _)
      | token token =>
          rw [seek, seek]
          split
          · exact ih (state.setAside token)
          · rfl

theorem length_seek (passing : Bool) (state : State) (lexemes : List Lexeme) :
    (seek passing state lexemes).length = state.length := by
  fun_induction seek passing state lexemes with
  | case1 | case4 => rfl
  | case2 state fault rest ih | case3 state token rest skipped ih => exact ih

/-- Skipping neither looks at the trees nor changes them. -/
theorem skip_with_children (state : State) (children : List Tree) :
    ({ state with children := children } : State).skip =
      { state.skip with children := children } := by
  unfold skip
  simp only
  split
  · split
    · exact seek_with_children true (state.setAside _) children state.upcoming
    · rfl
  · rfl

theorem length_skip (state : State) : state.skip.length = state.length := by
  unfold skip
  split
  · split
    · exact length_seek true (state.setAside _) state.upcoming
    · rfl
  · rfl

/-! ### Inside a branch -/

/-- The state in which the content of a branch begins. -/
def opened (state : State) : State := { state.flush with children := [] }.skip

theorem leadsTo_opened (state : State) : state.LeadsTo state.opened := by
  have emptied : state.flush.LeadsTo { state.flush with children := [] } := .of_eq rfl rfl rfl rfl
  exact ((leadsTo_flush state).trans emptied).trans (leadsTo_skip _)

@[simp]
theorem told_opened (state : State) : state.opened.told = [] := told_skip

theorem IsLive.opened {state : State} (live : state.IsLive) (clean : state.opened.faults = []) :
    state.opened.IsLive := by
  have flushed : ({ state.flush with children := [] } : State).IsLive :=
    ⟨live.flush.accepting, live.flush.supply⟩
  exact flushed.skip clean

/-- The current token is not one to pass over. -/
def IsSettled (state : State) : Prop :=
  ∃ token, state.current = some token ∧ token.kind.isIgnored = false

theorem IsSettled.opened_eq {state : State} (settled : state.IsSettled) :
    state.opened = { state.flush with children := [] } := by
  obtain ⟨token, current, kept⟩ := settled
  simp [State.opened, State.skip, current, kept]

theorem IsSettled.children_flush_opened {state : State} (settled : state.IsSettled) :
    state.opened.flush.children = [] := by
  have none : state.opened.ignored = [] := by
    rw [settled.opened_eq]
    exact ignored_flush state
  have content : state.opened.children = [] := by rw [settled.opened_eq]
  rw [State.flush, none]
  exact content

theorem isSettled_of_isAt {state : State} {kind : TokenKind} (here : state.isAt kind = true)
    (kept : kind.isIgnored = false) : state.IsSettled := by
  rw [isAt, beq_iff_eq, kind?, Option.map_eq_some_iff] at here
  obtain ⟨token, current, same⟩ := here
  exact ⟨token, current, same ▸ kept⟩

/-- What the grammar passes over has no text that begins like a name. -/
theorem IsLive.isSettled_of_isAtText {state : State} (live : state.IsLive) {text : String}
    (here : state.isAtText text = true) (word : text.toList.head?.any isNameStart = true) :
    state.IsSettled := by
  obtain ⟨token, current, supply⟩ := live.supply
  simp only [isAtText, current, Option.any_some, beq_iff_eq] at here
  exact ⟨token, current, (supply.isSpelled.isVisible (here ▸ word)).kept⟩

end Steps

end State

open State

theorem told_branch (kind : TreeKind) (part : Production) (state : State) :
    (branch kind part state).told =
      [.branch kind state.flush.length (part state.opened).length
        (part state.opened).children.reverse].reverse ++ state.told := by
  show telling (_ :: state.flush.children) = _
  rw [telling_cons_of_tells _ rfl, ← State.told, told_flush]
  rfl

/-- Skipping behind a branch is skipping at the end of its content. -/
theorem skip_branch (kind : TreeKind) (part : Production) (state : State) :
    (branch kind part state).skip = branch kind (fun state => (part state).skip) state := by
  refine (skip_with_children (part state.opened) _).trans ?_
  unfold branch
  simp only [length_skip, children_skip]
  rfl

end Grammar

end SchemaGraft
