import SchemaGraft.Proofs.DocumentPlaces
import SchemaGraft.Proofs.Positions
import SchemaGraft.Proofs.Reading.States

/-!
# The tree and the text that it was read from

The starts of trees come from counting the bytes of the tokens that are in the tree already. Nobody
compares this count with the text while reading goes on. Still the two agree as long as no text is
rejected: the tokens that are yet to be put into the tree, those passed over first, are cut from the
text one after the other where the count has come (`State.IsAlong`). So every branch and every token
begins between two characters of the text (`Tree.IsAligned`).

Every step of reading keeps a state aligned, unless it notes a problem.
-/

set_option autoImplicit false

namespace SchemaGraft

/-! ## Lexemes that are cut from a text -/

/-- Up to the first rejected text, the lexemes are cut from some characters one after the other. -/
def AreCutFrom : List Lexeme → List Char → Prop
  | [], _ | .rejected _ :: _, _ => True
  | .token token :: rest, chars =>
    ∃ back, chars = token.text.toList ++ back ∧ AreCutFrom rest back

theorem areCutFrom_lexemesFrom (allowed : Option Nat) (skip offset : Nat) (chars : List Char) :
    AreCutFrom (lexemesFrom allowed skip offset chars) (chars.drop skip) := by
  induction chars generalizing allowed skip offset with
  | nil =>
      unfold lexemesFrom
      split
      · trivial
      · exact ⟨[], by simp, trivial⟩
  | cons c rest ih =>
      cases skip with
      | succ skip => exact ih allowed skip _
      | zero =>
          by_cases reached : allowed = some 0
          · subst reached
            trivial
          · rw [lexemesFrom_cons reached]
            cases (scan c rest).finding with
            | problem reason => trivial
            | token kind =>
                refine ⟨rest.drop (scan c rest).extra, ?_, ih _ _ _⟩
                rw [String.toList_ofList, List.cons_append, List.take_append_drop]
                rfl

/-- **The lexemes of a text are cut from it.** -/
theorem areCutFrom_lexemes (limit : Option Nat) (text : String) :
    AreCutFrom (lexemes limit text) text.toList :=
  areCutFrom_lexemesFrom limit 0 0 text.toList

/-- A tree and all trees below it begin between two characters of a text. -/
def Tree.IsAligned (text : List Char) (tree : Tree) : Prop :=
  tree.BeginsAt (Text.IsBoundary text)

namespace Grammar

namespace State

/-! ## Aligned states -/

/-- The trees of a state are aligned with a text, and behind the tokens in the tree the text goes on
with those that were passed over and then with the lexemes ahead. -/
structure IsAlong (text : List Char) (state : State) (ahead : List Lexeme) : Prop where
  accepting : state.accepting = true
  place : ∃ front back, text = front ++ back ∧ state.length = String.utf8Len front ∧
    AreCutFrom (state.ignored.reverse.map .token ++ ahead) back
  trees : ∀ tree ∈ state.children, tree.IsAligned text

/-- The current token and the lexemes after it. -/
def ahead (state : State) : List Lexeme := state.current.toList.map .token ++ state.upcoming

/-- A state is aligned with a text. -/
def IsAligned (text : List Char) (state : State) : Prop := state.IsAlong text state.ahead

section Steps

variable {text : List Char} {state : State} {ahead : List Lexeme}

/-- Where the next tree begins lies between two characters. -/
theorem IsAlong.isBoundary (along : state.IsAlong text ahead) :
    Text.IsBoundary text state.length := by
  obtain ⟨front, back, rfl, length, _⟩ := along.place
  rw [length]
  exact Text.isBoundary_append front back

/-- A token is put into the tree once no other one waits for that. -/
theorem IsAlong.push {token : Token} (along : state.IsAlong text (.token token :: ahead))
    (flushed : state.ignored = []) (role : TokenRole) :
    (state.push role token).IsAlong text ahead where
  accepting := along.accepting
  place := by
    obtain ⟨front, back, rfl, length, cut⟩ := along.place
    rw [flushed] at cut
    obtain ⟨rest, rfl, cut⟩ := cut
    refine ⟨front ++ token.text.toList, rest, (List.append_assoc _ _ _).symm, ?_, ?_⟩
    · rw [String.utf8Len_append, ← String.utf8ByteSize_ofList token.text.toList,
        String.ofList_toList, ← length]
      rfl
    · show AreCutFrom (state.ignored.reverse.map .token ++ ahead) rest
      rwa [flushed]
  trees := List.forall_mem_cons.2 ⟨.leaf along.isBoundary, along.trees⟩

theorem IsAlong.flush (along : state.IsAlong text ahead) : state.flush.IsAlong text ahead := by
  have general : ∀ (tokens : List Token) (other : State), other.ignored = [] →
      other.IsAlong text (tokens.map .token ++ ahead) →
      (tokens.foldl (fun state token => state.push .ignored token) other).IsAlong text ahead := by
    intro tokens
    induction tokens with
    | nil => exact fun _ _ along => along
    | cons token rest ih =>
        exact fun other flushed along => ih _ flushed (along.push flushed .ignored)
  exact general state.ignored.reverse { state with ignored := [] } rfl
    ⟨along.accepting, along.place, along.trees⟩

theorem IsAligned.flush (aligned : state.IsAligned text) : state.flush.IsAligned text := by
  have same : state.flush.ahead = state.ahead := by
    rw [State.ahead, current_flush, upcoming_flush, State.ahead]
  rw [IsAligned, same]
  exact IsAlong.flush aligned

theorem IsAlong.setAside {token : Token} (along : state.IsAlong text (.token token :: ahead)) :
    (state.setAside token).IsAlong text ahead where
  accepting := along.accepting
  place := by
    obtain ⟨front, back, split, length, cut⟩ := along.place
    refine ⟨front, back, split, length, ?_⟩
    simpa [State.setAside] using cut
  trees := along.trees

/-- Reading on through what lies ahead ends in an aligned state, if it does not come past rejected
text. -/
theorem IsAlong.seek {passing : Bool} (along : state.IsAlong text ahead)
    (clean : (seek passing state ahead).faults = []) :
    (seek passing state ahead).IsAligned text := by
  fun_induction State.seek passing state ahead with
  | case1 => exact ⟨along.accepting, along.place, along.trees⟩
  | case2 state fault rest ih => cases faults_of_seek _ clean
  | case3 state token rest skipped ih => exact ih along.setAside clean
  | case4 => exact ⟨along.accepting, along.place, along.trees⟩

theorem ahead_of_current {token : Token} (current : state.current = some token) :
    state.ahead = .token token :: state.upcoming := by
  rw [State.ahead, current]
  rfl

theorem IsAligned.skip (aligned : state.IsAligned text) (clean : state.skip.faults = []) :
    state.skip.IsAligned text := by
  unfold State.skip at clean ⊢
  split at clean
  · rename_i token current
    rw [IsAligned, ahead_of_current current] at aligned
    split_ifs at clean ⊢ with ignored
    · exact IsAlong.seek aligned.setAside clean
    · rwa [IsAligned, ahead_of_current current]
  · exact aligned

theorem IsAligned.eat {role : TokenRole} (aligned : state.IsAligned text)
    (clean : (state.eat role).faults = []) : (state.eat role).IsAligned text := by
  have flushed := aligned.flush
  unfold State.eat at clean ⊢
  dsimp only at clean ⊢
  split at clean
  · rename_i token current
    rw [IsAligned, ahead_of_current current] at flushed
    exact IsAlong.seek (flushed.push (ignored_flush state) role) clean
  · exact flushed

/-- Noting a problem in an aligned state leaves a trace. -/
theorem IsAligned.reportAbout {problem : GrammarProblem} {token : Token}
    (aligned : state.IsAligned text) (clean : (state.reportAbout problem token).faults = []) :
    (state.reportAbout problem token).IsAligned text := by
  rw [State.reportAbout, if_pos aligned.accepting] at clean
  exact absurd clean (faults_note _)

theorem IsAligned.report {problem : GrammarProblem} (aligned : state.IsAligned text)
    (clean : (state.report problem).faults = []) : (state.report problem).IsAligned text := by
  unfold State.report at clean ⊢
  split at clean
  · exact aligned.reportAbout clean
  · exact aligned

theorem IsAligned.reportDepth (aligned : state.IsAligned text)
    (clean : state.reportDepth.faults = []) : state.reportDepth.IsAligned text := by
  unfold State.reportDepth at clean ⊢
  split at clean
  · rw [if_pos aligned.accepting] at clean
    exact absurd clean (faults_note _)
  · exact aligned

theorem IsAligned.reject {problem : GrammarProblem} (aligned : state.IsAligned text)
    (clean : (state.reject problem).faults = []) : (state.reject problem).IsAligned text := by
  have flushed := aligned.flush
  unfold State.reject at clean ⊢
  dsimp only at clean ⊢
  split at clean
  · rename_i token current
    have accepting : (state.flush.push .rejected token).accepting = true := flushed.accepting
    have reported := (leadsTo_next _).faults_of ((leadsTo_skip _).faults_of clean)
    rw [State.reportAbout, if_pos accepting] at reported
    exact absurd reported (faults_note _)
  · exact flushed

/-- Where the content of a branch begins is aligned. -/
theorem IsAligned.emptied (aligned : state.IsAligned text) :
    ({ state.flush with children := [] } : State).IsAligned text :=
  ⟨aligned.flush.accepting, aligned.flush.place, nofun⟩

theorem IsAligned.opened (aligned : state.IsAligned text) (clean : state.opened.faults = []) :
    state.opened.IsAligned text :=
  aligned.emptied.skip clean

/-- Behind a branch the trees that were there before stand again. -/
theorem IsAligned.closed {inner : State} (aligned : state.IsAligned text)
    (content : inner.IsAligned text) (kind : TreeKind) :
    ({ inner with
      children := .branch kind state.flush.length inner.length inner.children.reverse ::
        state.flush.children } : State).IsAligned text where
  accepting := content.accepting
  place := content.place
  trees := by
    refine List.forall_mem_cons.2 ⟨.branch aligned.flush.isBoundary ?_, aligned.flush.trees⟩
    exact fun child member => content.trees child (List.mem_reverse.1 member)

/-- Content that becomes no branch stands before the trees that were there before. -/
theorem IsAligned.unwrapped {inner : State} (aligned : state.IsAligned text)
    (content : inner.IsAligned text) :
    ({ inner with children := inner.children ++ state.flush.children } : State).IsAligned text where
  accepting := content.accepting
  place := content.place
  trees := List.forall_mem_append.2 ⟨content.trees, aligned.flush.trees⟩

end Steps

/-- The state before the lexemes of a text is aligned with the text. -/
theorem isAligned_start {depth : Nat} {limit : Option Nat} {text : String}
    (clean : (start depth (lexemes limit text)).faults = []) :
    (start depth (lexemes limit text)).IsAligned text.toList := by
  refine IsAlong.seek ⟨rfl, ⟨[], text.toList, rfl, rfl, ?_⟩, nofun⟩ clean
  exact areCutFrom_lexemes limit text

end State

end Grammar

end SchemaGraft
