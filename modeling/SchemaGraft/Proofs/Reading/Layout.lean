import SchemaGraft.Proofs.Reading.Productions

/-!
# Trees laid out in the text that they hold

Whatever mistakes a text has, the ranges of its tree are those of the texts that the tree holds, put
one after the other (`Tree.StandsBehind`). This text is the whole one as long as none of it is lost.
It is lost where the lexer rejects it, and where a token is taken away without a place in the tree;
`SyntaxProblem.losesText` tells the problems that come with such a loss.

So a state of reading holds trees that are laid out behind some characters, and these, the texts of
the trees, the tokens passed over and the lexemes ahead make up what is left of the text
(`State.IsLaidOut`). Every step of reading keeps this, also where it notes a problem, and there is
one rule for each way in which productions are put together (`Grammar.KeepsWhere`).
-/

set_option autoImplicit false

namespace SchemaGraft

/-! ## Trees that stand behind some characters -/

namespace Tree

mutual

/-- A tree begins behind some characters and is as long as its text, and the trees in it stand one
after the other. The text of an identifier is a name. -/
def StandsBehind : Tree → (front : List Char) → Prop
  | leaf role text start, front =>
    start = String.utf8Len front ∧ (role = .identifier → Name.IsValid text)
  | branch _ start stop children, front =>
    start = String.utf8Len front ∧
      stop = String.utf8Len (front ++ (textOfList children).toList) ∧ StandInRow children front

/-- Trees stand one after the other, the first one behind some characters. -/
def StandInRow : List Tree → (front : List Char) → Prop
  | [], _ => True
  | tree :: rest, front =>
    StandsBehind tree front ∧ StandInRow rest (front ++ (text tree).toList)

end

theorem textOfList_append (first second : List Tree) :
    textOfList (first ++ second) = textOfList first ++ textOfList second := by
  induction first with
  | nil => rw [List.nil_append, textOfList, String.empty_append]
  | cons tree rest ih => rw [List.cons_append, textOfList, textOfList, ih, String.append_assoc]

theorem textOfList_singleton (tree : Tree) : textOfList [tree] = tree.text := by
  rw [textOfList, textOfList, String.append_empty]

theorem standInRow_append {first second : List Tree} {front : List Char} :
    StandInRow (first ++ second) front ↔ StandInRow first front ∧
      StandInRow second (front ++ (textOfList first).toList) := by
  induction first generalizing front with
  | nil => simp [StandInRow, textOfList]
  | cons tree rest ih =>
      rw [List.cons_append, StandInRow, StandInRow, ih, textOfList, String.toList_append,
        and_assoc, List.append_assoc]

theorem standInRow_singleton {tree : Tree} {front : List Char} :
    StandInRow [tree] front ↔ tree.StandsBehind front := by
  rw [StandInRow, StandInRow, and_true]

end Tree

/-! ## Text that is lost -/

/-- Whether a part of the text may have no place in the tree because of a problem: rejected text, a
token that is taken away where an item type is missing, and whatever of that kind comes after the
limit on depth, when no problem is noted any more. -/
def SyntaxProblem.losesText : SyntaxProblem → Bool
  | .lexical problem => problem != .tokenLimitReached
  | .grammatical problem => problem == .itemTypeExpected || problem == .recursionLimitReached

/-- Some text was lost on the way. -/
def LosesText (faults : List SyntaxFault) : Prop :=
  ∃ fault ∈ faults, fault.problem.losesText = true

theorem LosesText.cons {faults : List SyntaxFault} (lost : LosesText faults)
    (fault : SyntaxFault) : LosesText (fault :: faults) := by
  obtain ⟨other, member, loses⟩ := lost
  exact ⟨other, List.mem_cons_of_mem _ member, loses⟩

/-- What is left of a source: all of it, if no text was lost. -/
structure IsLeftOf (source : List Char) (faults : List SyntaxFault) (chars : List Char) : Prop where
  sublist : chars.Sublist source
  whole : LosesText faults ∨ chars = source

section Left

variable {source chars : List Char} {faults : List SyntaxFault}

theorem IsLeftOf.cons (left : IsLeftOf source faults chars) (fault : SyntaxFault) :
    IsLeftOf source (fault :: faults) chars :=
  ⟨left.sublist, left.whole.imp_left (·.cons fault)⟩

/-- Where text is lost, less is left. -/
theorem IsLeftOf.lose {lost front back : List Char}
    (left : IsLeftOf source faults (front ++ (lost ++ back))) {faults' : List SyntaxFault}
    (loses : LosesText faults') : IsLeftOf source faults' (front ++ back) where
  sublist := ((List.sublist_append_right lost back).append_left front).trans left.sublist
  whole := .inl loses

end Left

/-! ## Problems of a text

Rejected text is never rejected because of the limit on lexemes. -/

/-- A finding is not that the limit on lexemes was reached. -/
def Scanned.IsOfText (scanned : Scanned) : Prop := scanned.finding ≠ .problem .tokenLimitReached

namespace Scanned

@[simp]
theorem isOfText_token (kind : TokenKind) (extra : Nat) : (token kind extra).IsOfText := nofun

@[simp]
theorem isOfText_problem {reason : LexicalProblem} {extra : Nat} :
    (problem reason extra).IsOfText ↔ reason ≠ .tokenLimitReached := by
  simp [IsOfText, problem]

theorem isOfText_exponentDigits (consumed : Nat) (chars : List Char) :
    (exponentDigits consumed chars).IsOfText := by
  unfold exponentDigits
  dsimp only
  split <;> [skip; split] <;> simp

theorem isOfText_exponent (consumed : Nat) (chars : List Char) :
    (exponent consumed chars).IsOfText := by
  unfold exponent
  repeat' split
  all_goals simp [isOfText_exponentDigits]

theorem isOfText_fraction (consumed : Nat) (chars : List Char) :
    (fraction consumed chars).IsOfText := by
  unfold fraction
  dsimp only
  repeat' split
  all_goals simp [isOfText_exponent]

theorem isOfText_afterInteger (isZero : Bool) (consumed : Nat) (chars : List Char) :
    (afterInteger isZero consumed chars).IsOfText := by
  unfold afterInteger
  repeat' split
  all_goals simp [isOfText_exponent, isOfText_fraction]

theorem isOfText_afterFirstDigit (digit : Char) (consumed : Nat) (chars : List Char) :
    (afterFirstDigit digit consumed chars).IsOfText := by
  unfold afterFirstDigit
  split <;> exact isOfText_afterInteger _ _ _

theorem isOfText_afterMinus (chars : List Char) : (afterMinus chars).IsOfText := by
  unfold afterMinus
  repeat' split
  all_goals simp [isOfText_afterFirstDigit]

/-- The last problem in a quoted string is one of its characters. -/
theorem ne_limit_of_quotedLength? {isFirst : Bool} {mode : QuotedMode}
    {found : Option LexicalProblem} {chars : List Char} {length : Nat} {reason : LexicalProblem}
    (before : found ≠ some .tokenLimitReached)
    (read : quotedLength? isFirst mode found chars = some (length, some reason)) :
    reason ≠ .tokenLimitReached := by
  fun_induction quotedLength? isFirst mode found chars generalizing length <;>
    grind [Option.map_eq_some_iff]

theorem isOfText_afterQuote (chars : List Char) : (afterQuote chars).IsOfText := by
  unfold afterQuote
  split
  · simp
  · split <;> simp
  · simp
  · split
    · simp
    · rename_i read
      simpa using ne_limit_of_quotedLength? (by simp) read
    · simp

end Scanned

theorem isOfText_scan (c : Char) (rest : List Char) : (scan c rest).IsOfText := by
  unfold scan
  repeat' split
  all_goals simp [Scanned.isOfText_afterQuote, Scanned.isOfText_afterMinus,
    Scanned.isOfText_afterFirstDigit]

/-! ## Lexemes that make up a text -/

/-- Lexemes make up some characters one after the other, rejected text among them, and names are
valid. Nothing is told about what comes after the limit on lexemes. -/
def MakeUp : List Lexeme → List Char → Prop
  | [], _ => True
  | .token token :: rest, chars =>
    (token.kind = .name → Name.IsValid token.text) ∧
      ∃ back, chars = token.text.toList ++ back ∧ MakeUp rest back
  | .rejected fault :: rest, chars =>
    if fault.problem = .tokenLimitReached then rest = []
    else ∃ lost back, chars = lost ++ back ∧ MakeUp rest back

/-- A name that is scanned is valid. -/
theorem isValid_of_scan {c : Char} {rest : List Char} {extra : Nat}
    (found : scan c rest = .token .name extra) :
    Name.IsValid (String.ofList (c :: rest.take extra)) := by
  unfold scan at found
  split at found
  · rename_i punctuation
    cases found
    exact absurd rfl (TokenKind.ofPunctuation?_ne_word punctuation).1
  · split_ifs at found with starts
    · cases found
      have all : ∀ c ∈ rest.take (rest.takeWhile isNameContinue).length,
          isNameContinue c = true := by
        rw [← List.prefix_iff_eq_take.1 (List.takeWhile_prefix _)]
        exact fun _ member => List.mem_takeWhile_imp member
      rw [Name.IsValid, Name.isValid, String.toList_ofList, Name.isValidChars, starts,
        Bool.true_and, List.all_eq_true]
      exact all
    · cases found
    · cases found
    · cases Scanned.kind_of_afterQuote found
    · obtain ⟨word | word, _⟩ := Scanned.cutsNumber_afterMinus _ _ _ found <;> cases word
    · obtain ⟨word | word, _⟩ := Scanned.cutsNumber_afterFirstDigit _ _ _ _ _ found <;> cases word
    · split at found
      · exact absurd found Scanned.token_ne_problem
      · cases found
      · exact absurd found Scanned.token_ne_problem
    · exact absurd found Scanned.token_ne_problem

theorem makeUp_lexemesFrom (allowed : Option Nat) (skip offset : Nat) (chars : List Char) :
    MakeUp (lexemesFrom allowed skip offset chars) (chars.drop skip) := by
  induction chars generalizing allowed skip offset with
  | nil =>
      unfold lexemesFrom
      split
      · exact (if_pos rfl).mpr rfl
      · exact ⟨nofun, [], by simp, trivial⟩
  | cons c rest ih =>
      cases skip with
      | succ skip => exact ih allowed skip _
      | zero =>
          by_cases reached : allowed = some 0
          · subst reached
            exact (if_pos rfl).mpr rfl
          · have split : (c :: rest).drop 0 =
                (c :: rest.take (scan c rest).extra) ++ rest.drop (scan c rest).extra := by
              rw [List.cons_append, List.take_append_drop, List.drop_zero]
            rw [lexemesFrom_cons reached, split]
            cases found : (scan c rest).finding with
            | problem reason =>
                have ofText : reason ≠ .tokenLimitReached := by
                  rintro rfl
                  exact isOfText_scan c rest found
                exact (if_neg ofText).mpr ⟨_, _, rfl, ih _ _ _⟩
            | token kind =>
                refine ⟨?_, rest.drop (scan c rest).extra, ?_, ih _ _ _⟩
                · rintro rfl
                  exact isValid_of_scan (by rw [Scanned.token, ← found])
                · rw [String.toList_ofList]

/-- **The lexemes of a text make it up.** -/
theorem makeUp_lexemes (limit : Option Nat) (text : String) :
    MakeUp (lexemes limit text) text.toList :=
  makeUp_lexemesFrom limit 0 0 text.toList

namespace Grammar

namespace State

/-! ## States whose trees are laid out -/

/-- The characters that the trees of a state hold, behind those in front. -/
def taken (front : List Char) (state : State) : List Char :=
  front ++ (Tree.textOfList state.children.reverse).toList

/-- The characters of the tokens that were passed over. -/
def waiting (state : State) : List Char := state.ignored.reverse.flatMap (·.text.toList)

/-- The trees of a state stand one after the other behind some characters, and the next one begins
behind them. -/
structure IsRow (front : List Char) (state : State) : Prop where
  trees : Tree.StandInRow state.children.reverse front
  length : state.length = String.utf8Len (state.taken front)

/-- The trees of a state stand one after the other, and together with what was passed over and with
the lexemes ahead they make up what is left of a source. Problems go unnoticed only where text was
lost or nothing is ahead any more. -/
structure IsLaidOutBefore (source front : List Char) (state : State) (ahead : List Lexeme) : Prop
    extends IsRow front state where
  left : ∃ back, MakeUp ahead back ∧
    IsLeftOf source state.faults (state.taken front ++ (state.waiting ++ back))
  noticing : state.accepting = true ∨ LosesText state.faults ∨ ahead = []

/-- The trees of a state are laid out, with all that is ahead behind them. -/
def IsLaidOut (source front : List Char) (state : State) : Prop :=
  state.IsLaidOutBefore source front state.ahead

section Steps

variable {source front : List Char} {state : State} {ahead : List Lexeme} {token : Token}
  {role : TokenRole}

theorem taken_push (front : List Char) (state : State) (role : TokenRole) (token : Token) :
    (state.push role token).taken front = state.taken front ++ token.text.toList := by
  simp only [taken, push, List.reverse_cons, Tree.textOfList_append, Tree.textOfList_singleton,
    Tree.text, String.toList_append, List.append_assoc]

theorem IsRow.push (row : state.IsRow front) (role : TokenRole) (token : Token)
    (named : role = .identifier → Name.IsValid token.text) :
    (state.push role token).IsRow front where
  trees := by
    show Tree.StandInRow (_ :: state.children).reverse front
    rw [List.reverse_cons, Tree.standInRow_append, Tree.standInRow_singleton]
    exact ⟨row.trees, row.length, named⟩
  length := by
    rw [taken_push, String.utf8Len_append, ← row.length, String.utf8Len_toList]
    rfl

/-- Taking in what was passed over adds its characters. -/
theorem IsRow.flush (row : state.IsRow front) :
    state.flush.IsRow front ∧ state.flush.taken front = state.taken front ++ state.waiting := by
  have general : ∀ (tokens : List Token) (other : State), other.IsRow front →
      let after := tokens.foldl (fun state token => state.push .ignored token) other
      after.IsRow front ∧
        after.taken front = other.taken front ++ tokens.flatMap (·.text.toList) := by
    intro tokens
    induction tokens with
    | nil => exact fun other row => ⟨row, (List.append_nil _).symm⟩
    | cons token rest ih =>
        intro other row
        obtain ⟨row, taken⟩ := ih _ (row.push .ignored token nofun)
        refine ⟨row, taken.trans ?_⟩
        rw [taken_push, List.flatMap_cons, List.append_assoc]
  exact general state.ignored.reverse { state with ignored := [] } ⟨row.trees, row.length⟩

theorem waiting_flush (state : State) : state.flush.waiting = [] := by
  rw [waiting, ignored_flush, List.reverse_nil, List.flatMap_nil]

theorem IsLaidOutBefore.flush (laid : state.IsLaidOutBefore source front ahead) :
    state.flush.IsLaidOutBefore source front ahead := by
  obtain ⟨row, taken⟩ := laid.toIsRow.flush
  obtain ⟨back, makeUp, left⟩ := laid.left
  refine ⟨row, ⟨back, makeUp, ?_⟩, ?_⟩
  · rw [faults_flush, taken, waiting_flush, List.nil_append, List.append_assoc]
    exact left
  · rw [accepting_flush, faults_flush]
    exact laid.noticing

theorem ahead_flush (state : State) : state.flush.ahead = state.ahead := by
  rw [State.ahead, current_flush, upcoming_flush, State.ahead]

theorem IsLaidOut.flush (laid : state.IsLaidOut source front) :
    state.flush.IsLaidOut source front := by
  rw [IsLaidOut, ahead_flush]
  exact IsLaidOutBefore.flush laid

/-- As long as something is ahead, problems are noticed, unless text was lost. -/
theorem IsLaidOutBefore.isNoticing {lexeme : Lexeme}
    (laid : state.IsLaidOutBefore source front (lexeme :: ahead)) :
    state.accepting = true ∨ LosesText state.faults := by
  rcases laid.noticing with accepting | lost | none
  · exact .inl accepting
  · exact .inr lost
  · cases none

/-- A token is put into the tree once no other one waits for that. -/
theorem IsLaidOutBefore.push (laid : state.IsLaidOutBefore source front (.token token :: ahead))
    (role : TokenRole) (flushed : state.ignored = [])
    (named : role = .identifier → token.kind = .name) :
    (state.push role token).IsLaidOutBefore source front ahead := by
  obtain ⟨back, ⟨valid, rest, rfl, makeUp⟩, left⟩ := laid.left
  refine ⟨laid.toIsRow.push role token fun identifier => valid (named identifier),
    ⟨rest, makeUp, ?_⟩, laid.isNoticing.imp_right .inl⟩
  have waiting : state.waiting = [] := by
    rw [State.waiting, flushed, List.reverse_nil, List.flatMap_nil]
  have waiting' : (state.push role token).waiting = [] := waiting
  rw [taken_push, waiting', List.nil_append, List.append_assoc]
  rw [waiting, List.nil_append] at left
  exact left

theorem IsLaidOutBefore.setAside
    (laid : state.IsLaidOutBefore source front (.token token :: ahead)) :
    (state.setAside token).IsLaidOutBefore source front ahead := by
  obtain ⟨back, ⟨_, rest, rfl, makeUp⟩, left⟩ := laid.left
  refine ⟨⟨laid.trees, laid.length⟩, ⟨rest, makeUp, ?_⟩,
    laid.isNoticing.imp_right .inl⟩
  have waiting : (state.setAside token).waiting = state.waiting ++ token.text.toList := by
    simp [State.waiting, State.setAside]
  rw [waiting, List.append_assoc]
  exact left

/-- Rejected text is lost, and with the limit on lexemes everything ends. -/
theorem IsLaidOutBefore.note {fault : Fault LexicalProblem}
    (laid : state.IsLaidOutBefore source front (.rejected fault :: ahead)) :
    (state.note ⟨.lexical fault.problem, fault.text, fault.start⟩).IsLaidOutBefore source front
      ahead := by
  obtain ⟨back, makeUp, left⟩ := laid.left
  rw [MakeUp] at makeUp
  split_ifs at makeUp with limit
  · subst makeUp
    exact ⟨⟨laid.trees, laid.length⟩, ⟨back, trivial, left.cons _⟩, .inr (.inr rfl)⟩
  · obtain ⟨lost, back, rfl, makeUp⟩ := makeUp
    have loses : LosesText
        (state.note ⟨.lexical fault.problem, fault.text, fault.start⟩).faults :=
      ⟨_, List.mem_cons_self, by simpa [SyntaxProblem.losesText] using limit⟩
    rw [← List.append_assoc] at left
    refine ⟨⟨laid.trees, laid.length⟩, ⟨back, makeUp, ?_⟩, .inr (.inl loses)⟩
    have less := left.lose loses
    rw [List.append_assoc] at less
    exact less

/-- Reading on keeps trees laid out, past rejected text too. -/
theorem IsLaidOutBefore.seek (laid : state.IsLaidOutBefore source front ahead) (passing : Bool) :
    (seek passing state ahead).IsLaidOut source front := by
  fun_induction State.seek passing state ahead with
  | case1 state => exact ⟨⟨laid.trees, laid.length⟩, laid.left, laid.noticing⟩
  | case2 state fault rest ih => exact ih laid.note
  | case3 state token rest skipped ih => exact ih laid.setAside
  | case4 state token rest kept => exact ⟨⟨laid.trees, laid.length⟩, laid.left, laid.noticing⟩

theorem IsLaidOut.skip (laid : state.IsLaidOut source front) :
    state.skip.IsLaidOut source front := by
  unfold State.skip
  split
  · rename_i token current
    rw [IsLaidOut, ahead_of_current current] at laid
    split
    · exact IsLaidOutBefore.seek laid.setAside _
    · rwa [IsLaidOut, ahead_of_current current]
  · exact laid

theorem IsLaidOut.eat (laid : state.IsLaidOut source front) (role : TokenRole)
    (named : role = .identifier → state.isAt .name = true) :
    (state.eat role).IsLaidOut source front := by
  have flushed := laid.flush
  unfold State.eat
  dsimp only
  split
  · rename_i token current
    rw [IsLaidOut, ahead_of_current current] at flushed
    refine IsLaidOutBefore.seek (flushed.push role (ignored_flush state) fun identifier => ?_) _
    rw [current_flush] at current
    simpa [isAt, kind?, current] using named identifier
  · exact flushed

/-! ### Problems that are noted -/

/-- Noting a problem of the grammar moves nothing. -/
theorem IsLaidOutBefore.noteProblem (laid : state.IsLaidOutBefore source front ahead)
    (problem : GrammarProblem) (text : String) (start : Nat) :
    (state.note ⟨.grammatical problem, text, start⟩).IsLaidOutBefore source front ahead := by
  obtain ⟨back, makeUp, left⟩ := laid.left
  refine ⟨⟨laid.trees, laid.length⟩, ⟨back, makeUp, left.cons _⟩, ?_⟩
  by_cases depth : problem = .recursionLimitReached
  · exact .inr (.inl ⟨_, List.mem_cons_self, by rw [depth]; rfl⟩)
  · have goes_on : (SyntaxProblem.grammatical problem).isLimit = false := by
      unfold SyntaxProblem.isLimit
      split <;> simp_all
    have kept : (state.note ⟨.grammatical problem, text, start⟩).accepting = state.accepting := by
      simp [State.note, goes_on]
    rw [kept]
    exact laid.noticing.imp_right (Or.imp_left (·.cons _))

theorem IsLaidOutBefore.reportAbout (laid : state.IsLaidOutBefore source front ahead)
    (problem : GrammarProblem) (token : Token) :
    (state.reportAbout problem token).IsLaidOutBefore source front ahead := by
  unfold State.reportAbout
  split
  · exact laid.noteProblem _ _ _
  · exact laid

theorem input_reportAbout (problem : GrammarProblem) (token : Token) (state : State) :
    (state.reportAbout problem token).current = state.current ∧
      (state.reportAbout problem token).upcoming = state.upcoming := by
  unfold State.reportAbout
  split <;> exact ⟨rfl, rfl⟩

theorem IsLaidOut.reportAbout (laid : state.IsLaidOut source front) (problem : GrammarProblem)
    (token : Token) : (state.reportAbout problem token).IsLaidOut source front := by
  obtain ⟨current, upcoming⟩ := input_reportAbout problem token state
  rw [IsLaidOut, State.ahead, current, upcoming]
  exact IsLaidOutBefore.reportAbout laid problem token

theorem IsLaidOut.report (laid : state.IsLaidOut source front) (problem : GrammarProblem) :
    (state.report problem).IsLaidOut source front := by
  unfold State.report
  split
  · exact laid.reportAbout _ _
  · exact laid

theorem IsLaidOut.reportDepth (laid : state.IsLaidOut source front) :
    state.reportDepth.IsLaidOut source front := by
  unfold State.reportDepth
  split
  · split
    · exact IsLaidOutBefore.noteProblem laid _ _ _
    · exact laid
  · exact laid

theorem IsLaidOut.reject (laid : state.IsLaidOut source front) (problem : GrammarProblem) :
    (state.reject problem).IsLaidOut source front := by
  have flushed := laid.flush
  unfold State.reject
  dsimp only
  split
  · rename_i token current
    rw [IsLaidOut, ahead_of_current current] at flushed
    have pushed := flushed.push .rejected (ignored_flush state) nofun
    have reported := (pushed.reportAbout problem token).seek false
    rw [State.next, (input_reportAbout _ _ _).2]
    exact reported.skip
  · exact flushed

/-- Without an item type, the token in its place is lost. -/
theorem IsLaidOut.drop (laid : state.IsLaidOut source front) (some : state.current.isSome = true) :
    (state.report .itemTypeExpected).next.IsLaidOut source front := by
  obtain ⟨token, current⟩ := Option.isSome_iff_exists.1 some
  rw [IsLaidOut, ahead_of_current current] at laid
  have reported := laid.reportAbout .itemTypeExpected token
  obtain ⟨back, ⟨_, rest, rfl, makeUp⟩, left⟩ := reported.left
  have loses : LosesText (state.reportAbout .itemTypeExpected token).faults := by
    rcases laid.isNoticing with accepting | lost
    · rw [State.reportAbout, if_pos accepting]
      exact ⟨_, List.mem_cons_self, rfl⟩
    · unfold State.reportAbout
      split
      · exact lost.cons _
      · exact lost
  rw [← List.append_assoc] at left
  have less := left.lose loses
  rw [List.append_assoc] at less
  rw [State.next, State.report, current]
  dsimp only
  rw [(input_reportAbout _ _ _).2]
  exact IsLaidOutBefore.seek ⟨reported.toIsRow, ⟨rest, makeUp, less⟩, .inr (.inl loses)⟩ _

/-! ### Branches -/

/-- Where the content of a branch begins, all trees before it are in front. -/
theorem IsLaidOut.emptied (laid : state.IsLaidOut source front) :
    ({ state.flush with children := [] } : State).IsLaidOut source (state.flush.taken front) := by
  have flushed := laid.flush
  have taken : ({ state.flush with children := [] } : State).taken (state.flush.taken front) =
      state.flush.taken front :=
    List.append_nil _
  refine ⟨⟨trivial, ?_⟩, ?_, flushed.noticing⟩
  · rw [taken]
    exact flushed.length
  · rw [taken]
    exact flushed.left

/-- Trees that hold the text of what was read behind some others stand behind these. -/
theorem IsLaidOut.behind {inner : State} (trees : List Tree) (row : state.IsRow front)
    (content : inner.IsLaidOut source (state.taken front))
    (stand : Tree.StandInRow trees.reverse (state.taken front))
    (text : Tree.textOfList trees.reverse = Tree.textOfList inner.children.reverse) :
    ({ inner with children := trees ++ state.children } : State).IsLaidOut source front := by
  have taken : ({ inner with children := trees ++ state.children } : State).taken front =
      inner.taken (state.taken front) := by
    simp only [State.taken, List.reverse_append, Tree.textOfList_append, text,
      String.toList_append, List.append_assoc]
  refine ⟨⟨?_, ?_⟩, ?_, content.noticing⟩
  · rw [List.reverse_append, Tree.standInRow_append]
    exact ⟨row.trees, stand⟩
  · rw [taken]
    exact content.length
  · rw [taken]
    exact content.left

/-- A branch is as long as its content. -/
theorem IsLaidOut.closed {inner : State} (laid : state.IsLaidOut source front)
    (content : inner.IsLaidOut source (state.flush.taken front)) (kind : TreeKind) :
    ({ inner with
      children := .branch kind state.flush.length inner.length inner.children.reverse ::
        state.flush.children } : State).IsLaidOut source front := by
  refine .behind [_] laid.flush.toIsRow content ?_ (Tree.textOfList_singleton _)
  exact Tree.standInRow_singleton.2 ⟨laid.flush.length, content.length, content.trees⟩

/-- Content that becomes no branch stands behind the trees that were there before. -/
theorem IsLaidOut.unwrapped {inner : State} (laid : state.IsLaidOut source front)
    (content : inner.IsLaidOut source (state.flush.taken front)) :
    ({ inner with children := inner.children ++ state.flush.children } : State).IsLaidOut source
      front :=
  .behind _ laid.flush.toIsRow content content.trees rfl

end Steps

/-- Nothing is passed over unless this is asked for. -/
theorem ignored_seek (state : State) (lexemes : List Lexeme) :
    (seek false state lexemes).ignored = state.ignored := by
  induction lexemes generalizing state with
  | nil => rfl
  | cons lexeme rest ih =>
      cases lexeme with
      | rejected fault => exact ih (state.note _)
      | token token => rfl

/-- Before the lexemes of a text nothing is lost. -/
theorem isLaidOut_start (depth : Nat) (limit : Option Nat) (text : String) :
    (start depth (lexemes limit text)).IsLaidOut text.toList [] := by
  have before : State.IsLaidOutBefore text.toList [] ⟨none, [], [], [], 0, [], true, depth, 0⟩
      (lexemes limit text) :=
    ⟨⟨trivial, rfl⟩, ⟨text.toList, makeUp_lexemes limit text, .refl _, .inr rfl⟩, .inl rfl⟩
  exact before.seek _

end State

/-! ## Productions that keep trees laid out -/

open State

/-- A production keeps trees laid out where it begins in a state of a certain kind. -/
structure KeepsWhere (before : State → Prop) (part : Production) : Prop where
  laidOut : ∀ {source front : List Char} {state : State}, before state →
    state.IsLaidOut source front → (part state).IsLaidOut source front

/-- A production keeps trees laid out wherever it begins. -/
abbrev Keeps (part : Production) : Prop := KeepsWhere Anywhere part

/-- A token that is not passed over is still at hand where a branch begins. -/
theorem isAt_opened {kind : TokenKind} (kept : kind.isIgnored = false) {state : State}
    (here : state.isAt kind = true) : state.opened.isAt kind = true := by
  rw [(isSettled_of_isAt here kept).opened_eq, isAt, kind?]
  show ((state.flush.current.map _) == some kind) = true
  rw [current_flush]
  exact here

namespace KeepsWhere

variable {before before' : State → Prop} {part second : Production} {condition : State → Bool}

theorem branch {kind : TreeKind} (keeps : KeepsWhere before' part)
    (inside : ∀ {state : State}, before state → before' state.opened) :
    KeepsWhere before (branch kind part) where
  laidOut here laid := laid.closed (keeps.laidOut (inside here) laid.emptied.skip) kind

theorem perhapsNonNull (keeps : KeepsWhere before' part)
    (inside : ∀ {state : State}, before state → before' { state.flush with children := [] }) :
    KeepsWhere before (perhapsNonNull part) where
  laidOut := by
    intro source front state here laid
    have read := (keeps.laidOut (inside here) laid.emptied).skip
    unfold Grammar.perhapsNonNull
    dsimp only
    split
    · have marked := IsLaidOut.eat read .part nofun
      exact (laid.closed marked .nonNullType).skip
    · exact (laid.unwrapped read).skip

/-- A production that is chosen where a condition holds. -/
theorem choose (first : KeepsWhere (fun state => condition state = true) part)
    (next : Keeps second) : Keeps (choose condition part second) where
  laidOut := by
    intro source front state here laid
    unfold Grammar.choose
    split
    · exact first.laidOut ‹_› laid
    · exact next.laidOut here laid

end KeepsWhere

namespace Keeps

variable {part second : Production} {condition : State → Bool}

theorem nothing : Keeps id := ⟨fun _ laid => laid⟩

theorem andThen (first : Keeps part) (next : Keeps second) :
    Keeps fun state => second (part state) :=
  ⟨fun here laid => next.laidOut trivial (first.laidOut here laid)⟩

theorem nil : Keeps (sequence []) := nothing

theorem cons {parts : List Production} (first : Keeps part) (rest : Keeps (sequence parts)) :
    Keeps (sequence (part :: parts)) :=
  first.andThen rest

theorem report (problem : GrammarProblem) : Keeps (report problem) :=
  ⟨fun _ laid => laid.report problem⟩

theorem reportDepth : Keeps reportDepth := ⟨fun _ laid => laid.reportDepth⟩

theorem reject (problem : GrammarProblem) : Keeps (reject problem) :=
  ⟨fun _ laid => laid.reject problem⟩

theorem flush : Keeps flush := ⟨fun _ laid => laid.flush⟩

theorem bump {role : TokenRole} (other : role ≠ .identifier) : Keeps (bump role) :=
  ⟨fun _ laid => (laid.eat _ fun identifier => absurd identifier other).skip⟩

theorem take : Keeps take := bump (by decide)

theorem descend (left : Nat) : Keeps (descend left) :=
  ⟨fun _ laid => ⟨⟨laid.trees, laid.length⟩, laid.left, laid.noticing⟩⟩

theorem branch {kind : TreeKind} (keeps : Keeps part) : Keeps (branch kind part) :=
  KeepsWhere.branch keeps fun _ => trivial

theorem choose (first : Keeps part) (next : Keeps second) : Keeps (choose condition part second) :=
  KeepsWhere.choose ⟨fun _ laid => first.laidOut trivial laid⟩ next

theorem perhapsNonNull (keeps : Keeps part) : Keeps (perhapsNonNull part) :=
  KeepsWhere.perhapsNonNull keeps fun _ => trivial

theorem whenever (keeps : Keeps part) : Keeps (whenever condition part) := keeps.choose nothing

theorem whenAt {kind : TokenKind} (keeps : Keeps part) : Keeps (whenAt kind part) := keeps.whenever

theorem repeatAlong (keeps : Keeps part) (lexemes : List Lexeme) :
    Keeps fun state => Grammar.repeatAlong condition part lexemes state := by
  induction lexemes with
  | nil => exact keeps.choose nothing
  | cons lexeme rest ih => exact (keeps.andThen ih).choose nothing

theorem repeatWhile (keeps : Keeps part) : Keeps (repeatWhile condition part) :=
  ⟨fun {_ _ state} here laid => (keeps.repeatAlong state.upcoming).laidOut here laid⟩

theorem several (keeps : Keeps part) (problem : GrammarProblem) :
    Keeps (several condition part problem) :=
  keeps.repeatWhile.choose (.report problem)

theorem close (mark : ClosingMark) : Keeps (close mark) where
  laidOut := by
    intro source front state here laid
    unfold Grammar.close
    split
    · exact laid
    · dsimp only
      split
      · exact take.laidOut here laid
      · exact laid.reportAbout _ _

theorem separated {mark : TokenKind} (keeps : Keeps part) : Keeps (separated mark part) :=
  .cons (.whenAt take) (.cons keeps (.cons (.repeatWhile (.cons take (.cons keeps .nil))) .nil))

/-- Parts of which at least one must be there. -/
theorem someOf (problem : GrammarProblem) {parts : List ((State → Bool) × Production)}
    (keeps : Keeps (sequence (parts.map fun part => Grammar.whenever part.1 part.2))) :
    Keeps (someOf problem parts) where
  laidOut := by
    intro source front state here laid
    have read := keeps.laidOut here laid
    rw [Yields.someOf_eq, Yields.foldl_tryPart_fst]
    split
    · exact read
    · exact read.report problem

end Keeps

end Grammar

end SchemaGraft
