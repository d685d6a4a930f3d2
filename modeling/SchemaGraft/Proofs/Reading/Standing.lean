import SchemaGraft.Proofs.Reading.States

/-!
# Standing before characters

Seen from the text, a state of reading is a place: some characters are still to be read
(`State.StandsBefore`). White space and commas at hand make no difference to it. What the grammar
sees first of some characters (`Shows`) is the current token of every state that stands before them,
and taking it leads to a state that stands before what comes behind it
(`State.StandsBefore.bump`).

Nothing is assumed of characters that lie further ahead. A text that is rejected there is noted only
when reading comes to it.
-/

set_option autoImplicit false

namespace SchemaGraft

/-! ## What characters show -/

/-- Characters that the grammar passes over wherever they stand between tokens. -/
def isPassedOver (c : Char) : Bool := isBlank c || c == ','

/-- Characters that the grammar passes over, each of them. -/
abbrev IsGap (chars : List Char) : Prop := ∀ c ∈ chars, isPassedOver c = true

theorem isGap_cons_iff {c : Char} {chars : List Char} :
    IsGap (c :: chars) ↔ isPassedOver c = true ∧ IsGap chars :=
  List.forall_mem_cons

theorem IsGap.of_all {chars : List Char} (all : chars.all isPassedOver = true) : IsGap chars :=
  List.all_eq_true.1 all

/-- The first token that the grammar sees of some characters. -/
inductive Shows : List Char → TokenKind → String → Prop where
  | endOfInput : Shows [] .endOfInput ""
  | passed {c : Char} {chars : List Char} {kind : TokenKind} {text : String}
      (passed : isPassedOver c = true) (shows : Shows chars kind text) :
      Shows (c :: chars) kind text
  | token {c : Char} {rest : List Char} {kind : TokenKind} {extra : Nat}
      (found : scan c rest = .token kind extra) (kept : kind.isIgnored = false) :
      Shows (c :: rest) kind (String.ofList (c :: rest.take extra))

/-- A text is read as one token, whatever follows of what may follow. -/
structure Spells (text : String) (kind : TokenKind) (follows : List Char → Prop) : Prop where
  kept : kind.isIgnored = false
  scanned : ∃ c rest, text.toList = c :: rest ∧
    ∀ more, follows more → scan c (rest ++ more) = .token kind rest.length

theorem Spells.shows {text : String} {kind : TokenKind} {follows : List Char → Prop}
    (spells : Spells text kind follows) {more : List Char} (follow : follows more) :
    Shows (text.toList ++ more) kind text := by
  obtain ⟨c, rest, spelled, scanned⟩ := spells.scanned
  have taken : String.ofList (c :: (rest ++ more).take rest.length) = text := by
    rw [List.take_left, ← spelled, String.ofList_toList]
  rw [spelled, List.cons_append]
  have shows := Shows.token (scanned more follow) spells.kept
  rwa [taken] at shows

/-- Words are read as they are wherever a word may end. -/
theorem IsWord.spells {kind : TokenKind} {text : String} (word : IsWord kind text)
    (kept : kind.isIgnored = false) : Spells text kind EndsWord :=
  ⟨kept, word⟩

theorem spells_of_ofPunctuation? {c : Char} {kind : TokenKind}
    (punctuation : TokenKind.ofPunctuation? c = some kind) (kept : kind.isIgnored = false) :
    Spells (String.ofList [c]) kind fun _ => True :=
  ⟨kept, c, [], String.toList_ofList, fun more _ => by simp [scan, punctuation]⟩

theorem scan_blank {c : Char} (blank : isBlank c = true) (rest : List Char) :
    scan c rest = .token .whitespace (rest.takeWhile isBlank).length := by
  have cases : c = '\t' ∨ c = ' ' ∨ c = '\n' ∨ c = '\r' ∨ c = '\ufeff' := by
    simpa [isBlank, or_assoc] using blank
  rcases cases with rfl | rfl | rfl | rfl | rfl <;> rfl

/-! ## Where lexemes begin -/

/-- Skipping the characters of a lexeme leads to where the next one begins. -/
theorem exists_lexemesFrom_skip (skip offset : Nat) (chars : List Char) :
    ∃ further, lexemesFrom none skip offset chars =
      lexemesFrom none 0 further (chars.drop skip) := by
  induction chars generalizing skip offset with
  | nil => exact ⟨offset, by rw [List.drop_nil]; rfl⟩
  | cons c rest ih =>
      cases skip with
      | zero => exact ⟨offset, rfl⟩
      | succ skip => exact ih skip _

theorem lexemesFrom_ne_nil (allowed : Option Nat) (skip offset : Nat) (chars : List Char) :
    lexemesFrom allowed skip offset chars ≠ [] := by
  have supply := supply_lexemesFrom allowed skip offset chars
  intro none
  rw [none] at supply
  cases supply

/-- The lexemes of characters that begin with a token. -/
theorem exists_lexemesFrom_token {c : Char} {rest : List Char} {kind : TokenKind} {extra : Nat}
    (found : scan c rest = .token kind extra) (offset : Nat) :
    ∃ further, lexemesFrom none 0 offset (c :: rest) =
      .token ⟨kind, String.ofList (c :: rest.take extra), offset⟩ ::
        lexemesFrom none 0 further (rest.drop extra) := by
  obtain ⟨further, same⟩ := exists_lexemesFrom_skip extra (offset + c.utf8Size) rest
  refine ⟨further, ?_⟩
  rw [lexemesFrom_cons (by simp), found, ← same]
  rfl

theorem lexemesFrom_succ (allowed : Option Nat) (skip offset : Nat) (c : Char)
    (rest : List Char) : lexemesFrom allowed (skip + 1) offset (c :: rest) =
      lexemesFrom allowed skip (offset + c.utf8Size) rest :=
  rfl

/-- The lexemes of characters that begin with white space. -/
theorem lexemesFrom_blank {c : Char} (blank : isBlank c = true) (offset : Nat)
    (chars : List Char) : lexemesFrom none 0 offset (c :: chars) =
      .token ⟨.whitespace, String.ofList (c :: chars.takeWhile isBlank), offset⟩ ::
        lexemesFrom none (chars.takeWhile isBlank).length (offset + c.utf8Size) chars := by
  have taken := (List.prefix_iff_eq_take.1 (List.takeWhile_prefix isBlank (l := chars))).symm
  rw [lexemesFrom_cons (by simp), scan_blank blank]
  show Lexeme.token ⟨.whitespace, String.ofList (c :: List.take _ chars), offset⟩ :: _ = _
  rw [Scanned.token, taken]
  rfl

namespace Grammar

namespace State

/-! ## Seeing the same -/

/-- Two states have the same ahead of them, and problems are noted in both or in none. -/
structure SeesAs (state other : State) : Prop where
  current : state.current = other.current
  upcoming : state.upcoming = other.upcoming
  faults : state.faults = other.faults
  accepting : state.accepting = other.accepting

theorem SeesAs.refl (state : State) : state.SeesAs state := ⟨rfl, rfl, rfl, rfl⟩

theorem SeesAs.trans {first second third : State} (front : first.SeesAs second)
    (back : second.SeesAs third) : first.SeesAs third :=
  ⟨front.current.trans back.current, front.upcoming.trans back.upcoming,
    front.faults.trans back.faults, front.accepting.trans back.accepting⟩

/-- Where reading on comes to depends on nothing but the lexemes. -/
theorem seesAs_seek (first second : State) (faults : first.faults = second.faults)
    (accepting : first.accepting = second.accepting) (passing : Bool) (lexemes : List Lexeme) :
    (seek passing first lexemes).SeesAs (seek passing second lexemes) := by
  induction lexemes generalizing first second with
  | nil => exact ⟨rfl, rfl, faults, accepting⟩
  | cons lexeme rest ih =>
      cases lexeme with
      | rejected fault => exact ih _ _ (by simp [note, faults]) (by simp [note, accepting])
      | token token =>
          rw [seek, seek]
          split
          · exact ih _ _ faults accepting
          · exact ⟨rfl, rfl, faults, accepting⟩

theorem seek_ignored (state : State) {token : Token} (rest : List Lexeme)
    (ignored : token.kind.isIgnored = true) :
    seek true state (.token token :: rest) = seek true (state.setAside token) rest := by
  rw [seek, ignored, Bool.and_true, if_pos rfl]

/-- Taking the current token is reading on past it. -/
theorem bump_eq {state : State} {token : Token} (current : state.current = some token)
    (role : TokenRole) :
    state.bump role = seek true (state.flush.push role token) state.upcoming := by
  rw [← skip_seek]
  simp [State.bump, State.eat, State.next, current, push]

theorem length_upcoming_seek_lt (passing : Bool) (state : State) {lexemes : List Lexeme}
    (some : lexemes ≠ []) : (seek passing state lexemes).upcoming.length < lexemes.length := by
  fun_induction seek passing state lexemes with
  | case1 => exact absurd rfl some
  | case2 state fault rest ih | case3 state token rest skipped ih =>
      cases rest with
      | nil => exact Nat.zero_lt_one
      | cons lexeme rest => exact Nat.lt_succ_of_lt (ih (List.cons_ne_nil _ _))
  | case4 => exact Nat.lt_succ_self _

/-! ## Standing -/

/-- Some characters are still to be read, and no problem was found before them. -/
def StandsBefore (state : State) (chars : List Char) : Prop :=
  ∃ (offset : Nat) (before : State), before.faults = [] ∧ before.accepting = true ∧
    state.SeesAs (seek true before (lexemesFrom none 0 offset chars))

/-- A token is at hand, and no problem was found before it. -/
structure HasToken (state : State) (kind : TokenKind) (text : String) : Prop where
  clean : state.faults = []
  accepting : state.accepting = true
  current : ∃ start, state.current = some ⟨kind, text, start⟩
  kept : kind.isIgnored = false

namespace StandsBefore

variable {state : State} {chars : List Char}

theorem congr {other : State} (stands : state.StandsBefore chars) (same : other.SeesAs state) :
    other.StandsBefore chars := by
  obtain ⟨offset, before, clean, accepting, sees⟩ := stands
  exact ⟨offset, before, clean, accepting, same.trans sees⟩

/-- White space and commas are passed over. -/
theorem passed {c : Char} (stands : state.StandsBefore (c :: chars))
    (passed : isPassedOver c = true) : state.StandsBefore chars := by
  obtain ⟨offset, before, clean, accepting, sees⟩ := stands
  by_cases blank : isBlank c = true
  · have here := lexemesFrom_blank blank offset chars
    cases chars with
    | nil =>
        rw [here] at sees
        exact ⟨offset + c.utf8Size, before.setAside _, clean, accepting, sees⟩
    | cons d rest =>
        by_cases more : isBlank d = true
        · -- The white space is put aside in one piece or in two, and nothing depends on that.
          rw [here, List.takeWhile_cons_of_pos more, List.length_cons, lexemesFrom_succ] at sees
          refine ⟨offset + c.utf8Size, before, clean, accepting, sees.trans ?_⟩
          rw [lexemesFrom_blank more, seek_ignored _ _ rfl, seek_ignored _ _ rfl]
          refine seesAs_seek _ _ ?_ ?_ true _ <;> rfl
        · rw [here, List.takeWhile_cons_of_neg more] at sees
          exact ⟨offset + c.utf8Size, before.setAside _, clean, accepting, sees⟩
  · have comma : c = ',' := by simpa [isPassedOver, blank] using passed
    subst comma
    have found : scan ',' chars = .token .comma 0 := rfl
    obtain ⟨further, same⟩ := exists_lexemesFrom_token found offset
    rw [same] at sees
    exact ⟨further, before.setAside _, clean, accepting, sees⟩

/-- What characters show is at hand in front of them. -/
theorem hasToken {kind : TokenKind} {text : String} (stands : state.StandsBefore chars)
    (shows : Shows chars kind text) : state.HasToken kind text := by
  induction shows with
  | endOfInput =>
      obtain ⟨offset, before, clean, accepting, sees⟩ := stands
      exact ⟨sees.faults.trans clean, sees.accepting.trans accepting, ⟨_, sees.current⟩, rfl⟩
  | passed skipped _ ih => exact ih (stands.passed skipped)
  | @token c rest kind extra found kept =>
      obtain ⟨offset, before, clean, accepting, sees⟩ := stands
      obtain ⟨further, same⟩ := exists_lexemesFrom_token found offset
      rw [same, seek, kept, Bool.and_false, if_neg Bool.false_ne_true] at sees
      exact ⟨sees.faults.trans clean, sees.accepting.trans accepting, ⟨_, sees.current⟩, kept⟩

/-- **Taking the token at hand leads to what comes behind it.** -/
theorem bump {text : String} {kind : TokenKind} {follows : List Char → Prop} {more : List Char}
    (stands : state.StandsBefore (text.toList ++ more)) (spells : Spells text kind follows)
    (follow : follows more) (role : TokenRole) :
    (state.bump role).StandsBefore more ∧
      (state.bump role).upcoming.length < state.upcoming.length ∧
      ∃ place, (state.bump role).children = .leaf role text place :: state.flush.children := by
  obtain ⟨start, current⟩ := (stands.hasToken (spells.shows follow)).current
  obtain ⟨c, rest, spelled, scanned⟩ := spells.scanned
  obtain ⟨offset, before, clean, accepting, sees⟩ := stands
  rw [spelled, List.cons_append] at sees
  obtain ⟨further, same⟩ := exists_lexemesFrom_token (scanned more follow) offset
  rw [same, List.drop_left, seek, spells.kept, Bool.and_false, if_neg Bool.false_ne_true] at sees
  have upcoming : state.upcoming = lexemesFrom none 0 further more := sees.upcoming
  rw [bump_eq current]
  refine ⟨⟨further, state.flush.push role ⟨kind, text, start⟩, ?_, ?_, ?_⟩, ?_, ?_⟩
  · rw [push, faults_flush, sees.faults]
    exact clean
  · rw [push, accepting_flush, sees.accepting]
    exact accepting
  · rw [upcoming]
    exact .refl _
  · exact length_upcoming_seek_lt true _ (by rw [upcoming]; exact lexemesFrom_ne_nil _ _ _ _)
  · exact ⟨_, children_seek _ _ _⟩

end StandsBefore

end State

end Grammar

end SchemaGraft
