import Mathlib.Data.List.Basic
import SchemaGraft.Proofs.Reading.Productions
import SchemaGraft.Proofs.Reading.Standing

/-!
# What productions accept

A production accepts some characters if it reads just these, finds no problem in them, and adds
certain trees (`Accepts`). What may follow the characters is a condition of its own: a word must not
go on, and whatever the production could still take must not be at hand.

As in `Yields` there is one rule for each way in which productions are put together. That a
production reads at least one token, as far as it is given any, keeps repetitions going
(`Accepts.of_repeatWhile`). That no depth beyond the limit is tried is asked of the state in the
end, so the depth of values and types is not counted here.
-/

set_option autoImplicit false

namespace SchemaGraft

open SchemaGraft.Tree

namespace Grammar

open State

/-! ## Ahead of a state -/

namespace State

/-- No depth beyond the limit was tried. -/
def IsWithinLimit (state : State) : Prop := state.deepest ≤ state.depthLimit

theorem LeadsTo.isWithinLimit {before after : State} (leads : before.LeadsTo after)
    (within : after.IsWithinLimit) : before.IsWithinLimit := by
  unfold IsWithinLimit at *
  rw [← leads.depthLimit_eq]
  exact le_trans leads.deepest_le within

section Token

variable {state : State} {kind : TokenKind} {text : String} (has : state.HasToken kind text)
include has

theorem HasToken.isAt_eq (other : TokenKind) : state.isAt other = (kind == other) := by
  obtain ⟨start, current⟩ := has.current
  rw [isAt, kind?, current]
  rfl

theorem HasToken.isAtEither_eq (first second : TokenKind) :
    state.isAtEither first second = (kind == first || kind == second) := by
  rw [isAtEither, has.isAt_eq, has.isAt_eq]

theorem HasToken.isAtText_eq (other : String) : state.isAtText other = (text == other) := by
  obtain ⟨start, current⟩ := has.current
  rw [isAtText, current]
  rfl

theorem HasToken.isSome_current : state.current.isSome = true := by
  obtain ⟨start, current⟩ := has.current
  rw [current]
  rfl

theorem HasToken.kind?_eq : state.kind? = some kind := by
  obtain ⟨start, current⟩ := has.current
  rw [kind?, current]
  rfl

theorem HasToken.isSettled : state.IsSettled := by
  obtain ⟨start, current⟩ := has.current
  exact ⟨_, current, has.kept⟩

end Token

/-! ### Skipping where a state stands -/

theorem isIgnored_eq_false_of_seek {before : State} {lexemes : List Lexeme} {token : Token}
    (current : (seek true before lexemes).current = some token) :
    token.kind.isIgnored = false := by
  fun_induction seek true before lexemes with
  | case1 => cases current
  | case2 state fault rest ih | case3 state other rest skipped ih => exact ih current
  | case4 state other rest kept =>
      cases current
      simpa using kept

namespace StandsBefore

variable {state : State} {chars : List Char}

/-- A state that stands before characters has passed over what can be passed over. -/
theorem skip_eq (stands : state.StandsBefore chars) : state.skip = state := by
  obtain ⟨offset, before, clean, accepting, sees⟩ := stands
  unfold skip
  split
  · rename_i token current
    rw [isIgnored_eq_false_of_seek (sees.current.symm.trans current), if_neg Bool.false_ne_true]
  · rfl

theorem flush (stands : state.StandsBefore chars) : state.flush.StandsBefore chars :=
  stands.congr ⟨current_flush _, upcoming_flush _, faults_flush _, accepting_flush _⟩

theorem opened (stands : state.StandsBefore chars) : state.opened.StandsBefore chars := by
  have emptied : ({ state.flush with children := [] } : State).StandsBefore chars :=
    stands.flush.congr ⟨rfl, rfl, rfl, rfl⟩
  rwa [State.opened, emptied.skip_eq]

/-- Any number of characters can be passed over. -/
theorem passed_all {gap : List Char} (stands : state.StandsBefore (gap ++ chars))
    (passed : IsGap gap) : state.StandsBefore chars := by
  induction gap with
  | nil => exact stands
  | cons c gap ih =>
      rw [isGap_cons_iff] at passed
      exact ih (stands.passed passed.1) passed.2

end StandsBefore

theorem seesAs_skip {state other : State} (same : state.SeesAs other) :
    state.skip.SeesAs other.skip := by
  unfold skip
  rw [same.current]
  split
  · split
    · rw [same.upcoming]
      exact seesAs_seek (state.setAside _) (other.setAside _) same.faults same.accepting true _
    · exact same
  · exact same

end State

/-! ## Depths beyond the limit -/

/-- A production tries a depth beyond the limit, wherever it begins. -/
structure Exceeds (part : Production) : Prop extends IsSteady part where
  beyond : ∀ state : State, ¬ (part state).IsWithinLimit

namespace Exceeds

variable {part second : Production}

/-- A depth where no level is left is beyond the limit. -/
theorem descend : Exceeds (descend 0) where
  toIsSteady := .descend 0
  beyond state := by
    rw [IsWithinLimit, not_le]
    exact lt_of_lt_of_le (Nat.lt_succ_self _) (le_max_right _ _)

theorem andThen (exceeds : Exceeds part) (next : IsSteady second) :
    Exceeds fun state => second (part state) where
  toIsSteady := exceeds.toIsSteady.andThen next
  beyond state within := exceeds.beyond state ((next.leadsTo _).isWithinLimit within)

theorem behind (exceeds : Exceeds second) (first : IsSteady part) :
    Exceeds fun state => second (part state) where
  toIsSteady := first.andThen exceeds.toIsSteady
  beyond state := exceeds.beyond (part state)

theorem branch {kind : TreeKind} (exceeds : Exceeds part) : Exceeds (branch kind part) where
  toIsSteady := exceeds.toIsSteady.branch
  beyond state := exceeds.beyond state.opened

end Exceeds

/-! ## Acceptance -/

/-- Some characters are more than can be passed over. -/
def IsShown (chars : List Char) : Prop := ∃ c ∈ chars, isPassedOver c = false

/-- A production reads some characters, no matter what follows of what may follow, and adds trees
for which something holds. -/
structure Accepts (chars : List Char) (follows : List Char → Prop) (part : Production)
    (holds : List Tree → Prop) : Prop extends IsSteady part where
  reads : ∀ (state : State) (more : List Char), follows more →
    state.StandsBefore (chars ++ more) → (part state).IsWithinLimit →
    (part state).StandsBefore more ∧
      (∃ trees, (part state).told = trees.reverse ++ state.told ∧ holds trees) ∧
      (IsShown chars → (part state).upcoming.length < state.upcoming.length)

/-! ### What may follow -/

/-- A word or a string may end before some characters. -/
structure Ends (chars : List Char) : Prop where
  word : EndsWord chars
  quote : chars.head? ≠ some '"'

/-- What some characters show fulfils a condition. -/
def Offers (allowed : TokenKind → String → Prop) (chars : List Char) : Prop :=
  ∃ kind text, Shows chars kind text ∧ allowed kind text

/-- Words and strings may end before some characters, and what these show is of none of some
kinds. -/
structure Stops (kinds : List TokenKind) (chars : List Char) : Prop extends Ends chars where
  offers : Offers (fun kind _ => kind ∉ kinds) chars

theorem Offers.mono {allowed allowed' : TokenKind → String → Prop} {chars : List Char}
    (offers : Offers allowed chars)
    (weaker : ∀ kind text, allowed kind text → allowed' kind text) : Offers allowed' chars := by
  obtain ⟨kind, text, shows, here⟩ := offers
  exact ⟨kind, text, shows, weaker kind text here⟩

theorem Offers.passed {allowed : TokenKind → String → Prop} {chars : List Char} {c : Char}
    (offers : Offers allowed chars) (passed : isPassedOver c = true) :
    Offers allowed (c :: chars) := by
  obtain ⟨kind, text, shows, here⟩ := offers
  exact ⟨kind, text, .passed passed shows, here⟩

theorem Offers.passed_all {allowed : TokenKind → String → Prop} {gap chars : List Char}
    (offers : Offers allowed chars) (passed : IsGap gap) :
    Offers allowed (gap ++ chars) := by
  induction gap with
  | nil => exact offers
  | cons c gap ih =>
      rw [isGap_cons_iff] at passed
      exact (ih passed.2).passed passed.1

theorem offers_of_punctuation {allowed : TokenKind → String → Prop} {c : Char} {kind : TokenKind}
    (punctuation : TokenKind.ofPunctuation? c = some kind) (kept : kind.isIgnored = false)
    (here : allowed kind (String.ofList [c])) (chars : List Char) :
    Offers allowed (c :: chars) := by
  have shows : Shows ((String.ofList [c]).toList ++ chars) kind (String.ofList [c]) :=
    (spells_of_ofPunctuation? punctuation kept).shows trivial
  rw [String.toList_ofList] at shows
  exact ⟨kind, _, shows, here⟩

theorem offers_of_spells {allowed : TokenKind → String → Prop} {text : String} {kind : TokenKind}
    {follows : List Char → Prop} (spells : Spells text kind follows) {chars : List Char}
    (follow : follows chars) (here : allowed kind text) : Offers allowed (text.toList ++ chars) :=
  ⟨kind, text, spells.shows follow, here⟩

theorem isPassedOver_of_scan {c : Char} {rest : List Char} {kind : TokenKind} {extra : Nat}
    (found : scan c rest = .token kind extra) (kept : kind.isIgnored = false) :
    isPassedOver c = false := by
  cases passed : isPassedOver c with
  | false => rfl
  | true =>
      rw [isPassedOver, Bool.or_eq_true, beq_iff_eq] at passed
      rcases passed with blank | rfl
      · rw [scan_blank blank] at found
        cases found
        cases kept
      · cases found
        cases kept

/-- What shows a token is more than can be passed over. -/
theorem isShown_of_offers {allowed : TokenKind → String → Prop} {chars : List Char}
    (offers : Offers allowed chars) (inside : ∀ text, ¬ allowed .endOfInput text) :
    IsShown chars := by
  obtain ⟨kind, text, shows, here⟩ := offers
  induction shows with
  | endOfInput => exact absurd here (inside _)
  | passed _ _ ih =>
      obtain ⟨c, member, visible⟩ := ih here
      exact ⟨c, List.mem_cons_of_mem _ member, visible⟩
  | token found kept => exact ⟨_, List.mem_cons_self, isPassedOver_of_scan found kept⟩

theorem ends_nil : Ends [] := ⟨endsWord_nil, by simp⟩

theorem cases_of_isPassedOver {c : Char} (passed : isPassedOver c = true) :
    c = '\t' ∨ c = ' ' ∨ c = '\n' ∨ c = '\r' ∨ c = '\ufeff' ∨ c = ',' := by
  simpa [isPassedOver, isBlank, or_assoc] using passed

theorem ends_of_isPassedOver {c : Char} (passed : isPassedOver c = true) (chars : List Char) :
    Ends (c :: chars) := by
  rcases cases_of_isPassedOver passed with rfl | rfl | rfl | rfl | rfl | rfl <;>
    exact ⟨endsWord_cons_iff.2 rfl, by simp⟩

/-- Punctuation is seen, commas aside, and words and strings end before it. -/
theorem spec_of_punctuation {c : Char} {kind : TokenKind}
    (punctuation : TokenKind.ofPunctuation? c = some kind) :
    (kind.isIgnored = false → isPassedOver c = false) ∧ ∀ chars, Ends (c :: chars) := by
  unfold TokenKind.ofPunctuation? at punctuation
  split at punctuation <;> cases punctuation <;>
    exact ⟨fun kept => (by first | rfl | cases kept), fun _ => ⟨endsWord_cons_iff.2 rfl, by simp⟩⟩

theorem ends_of_punctuation {c : Char} {kind : TokenKind}
    (punctuation : TokenKind.ofPunctuation? c = some kind) (chars : List Char) :
    Ends (c :: chars) :=
  (spec_of_punctuation punctuation).2 chars

/-- At the end of the input everything ends. -/
theorem stops_nil {kinds : List TokenKind} (other : .endOfInput ∉ kinds) : Stops kinds [] :=
  ⟨ends_nil, _, _, .endOfInput, other⟩

theorem stops_of_punctuation {kinds : List TokenKind} {c : Char} {kind : TokenKind}
    (punctuation : TokenKind.ofPunctuation? c = some kind) (kept : kind.isIgnored = false)
    (other : kind ∉ kinds) (chars : List Char) : Stops kinds (c :: chars) :=
  ⟨ends_of_punctuation punctuation chars, offers_of_punctuation punctuation kept other chars⟩

/-- White space and commas separate words, so only what comes behind them matters. -/
theorem stops_of_isPassedOver {kinds : List TokenKind} {c : Char} {chars : List Char}
    (passed : isPassedOver c = true) (offers : Offers (fun kind _ => kind ∉ kinds) chars) :
    Stops kinds (c :: chars) :=
  ⟨ends_of_isPassedOver passed chars, offers.passed passed⟩

theorem Stops.passed {kinds : List TokenKind} {c : Char} {chars : List Char}
    (stops : Stops kinds chars) (passed : isPassedOver c = true) : Stops kinds (c :: chars) :=
  stops_of_isPassedOver passed stops.offers

theorem Stops.mono {kinds fewer : List TokenKind} {chars : List Char} (stops : Stops kinds chars)
    (subset : fewer ⊆ kinds) : Stops fewer chars :=
  ⟨stops.toEnds, stops.offers.mono fun _ _ other member => other (subset member)⟩

/-- Without gaps the texts stand one after the other. -/
theorem intercalate_nil (texts : List (List Char)) : [].intercalate texts = texts.flatten := by
  induction texts with
  | nil => rfl
  | cons first rest ih =>
      cases rest with
      | nil => rfl
      | cons second rest => simpa [List.intercalate] using ih

/-- A character comes first. -/
def Begins (c : Char) (chars : List Char) : Prop := ∃ rest, chars = c :: rest

theorem offers_of_begins {c : Char} {kind : TokenKind}
    (punctuation : TokenKind.ofPunctuation? c = some kind) (kept : kind.isIgnored = false)
    {more : List Char} (begins : Begins c more) : Offers (fun other _ => other = kind) more := by
  obtain ⟨rest, rfl⟩ := begins
  exact offers_of_punctuation punctuation kept rfl rest

/-- Trees that come from the items of a list, one item after the other. -/
inductive Each {α : Type} (holds : α → List Tree → Prop) : List α → List Tree → Prop where
  | nil : Each holds [] []
  | cons {item : α} {items : List α} {front back : List Tree} (first : holds item front)
      (rest : Each holds items back) : Each holds (item :: items) (front ++ back)

/-- Some trees are one tree that stands for what is the same as something given, places aside. -/
def Again {α β : Type} (reads : Tree → α → Prop) (bare : α → β) (given : β) : List Tree → Prop :=
  Single fun tree again => reads tree again ∧ bare again = given

/-- Some trees stand together for what is the same as something given, places aside. -/
def Together {α β : Type} (reads : List Tree → α → Prop) (bare : α → β) (given : β)
    (trees : List Tree) : Prop :=
  ∃ again, reads trees again ∧ bare again = given

/-- Trees that stand for one item each stand for a list of items together. -/
theorem Each.exists_reads {α β γ : Type} {reads : Tree → β → Prop}
    {readsAll : List Tree → List β → Prop} {bare : β → γ} {given : α → γ} (nil : readsAll [] [])
    (cons : ∀ tree again others rest, reads tree again → readsAll others rest →
      readsAll (tree :: others) (again :: rest)) {items : List α} {trees : List Tree}
    (each : Each (fun item => Again reads bare (given item)) items trees) :
    ∃ again, readsAll trees again ∧ again.map bare = items.map given := by
  induction each with
  | nil => exact ⟨[], nil, rfl⟩
  | cons first _ ih =>
      obtain ⟨tree, again, rfl, here, same⟩ := first
      obtain ⟨rest, all, same'⟩ := ih
      exact ⟨again :: rest, cons _ _ _ _ here all, by
        rw [List.map_cons, List.map_cons, same, same']⟩

/-- A condition on states holds wherever some characters stand before what may follow. -/
def Meeting (condition : State → Bool) (answer : Bool) (chars : List Char)
    (follows : List Char → Prop) : Prop :=
  ∀ (state : State) (more : List Char), follows more → state.StandsBefore (chars ++ more) →
    condition state = answer

theorem meeting_of_offers {condition : State → Bool} {answer : Bool} {chars : List Char}
    {follows : List Char → Prop} {allowed : TokenKind → String → Prop}
    (offers : ∀ more, follows more → Offers allowed (chars ++ more))
    (decides : ∀ (state : State) (kind : TokenKind) (text : String), state.HasToken kind text →
      allowed kind text → condition state = answer) : Meeting condition answer chars follows := by
  intro state more follow stands
  obtain ⟨kind, text, shows, here⟩ := offers more follow
  exact decides state kind text (stands.hasToken shows) here

theorem meeting_isAt_of_offers {kind : TokenKind} {chars : List Char}
    {follows : List Char → Prop}
    (offers : ∀ more, follows more → Offers (fun other _ => other = kind) (chars ++ more)) :
    Meeting (isAt kind) true chars follows :=
  meeting_of_offers offers fun state other text has same => by
    rw [has.isAt_eq, same, beq_self_eq_true]

theorem meeting_isAtText_of_offers {text : String} {chars : List Char}
    {follows : List Char → Prop}
    (offers : ∀ more, follows more → Offers (fun _ other => other = text) (chars ++ more)) :
    Meeting (isAtText text) true chars follows :=
  meeting_of_offers offers fun state kind other has same => by
    rw [has.isAtText_eq, same, beq_self_eq_true]

/-- A token is at hand where its text stands. -/
theorem meeting_of_spells {text : String} {kind : TokenKind} {follows : List Char → Prop}
    (spells : Spells text kind follows) : Meeting (isAt kind) true text.toList follows :=
  meeting_isAt_of_offers fun _ follow => offers_of_spells spells follow rfl

/-- A mark is at hand where it stands. -/
theorem meeting_mark {c : Char} {kind : TokenKind}
    (punctuation : TokenKind.ofPunctuation? c = some kind) (kept : kind.isIgnored = false)
    (chars : List Char) (follows : List Char → Prop) :
    Meeting (isAt kind) true (c :: chars) follows :=
  meeting_isAt_of_offers fun _ _ => offers_of_punctuation punctuation kept rfl _

/-- A condition that holds in front of some characters holds in front of them and more. -/
theorem Meeting.append {condition : State → Bool} {answer : Bool} {chars back : List Char}
    {follows follows' : List Char → Prop} (meeting : Meeting condition answer chars follows)
    (apart : ∀ more, follows' more → follows (back ++ more)) :
    Meeting condition answer (chars ++ back) follows' := by
  intro state more follow stands
  rw [List.append_assoc] at stands
  exact meeting state _ (apart more follow) stands

theorem Meeting.passed {condition : State → Bool} {answer : Bool} {chars : List Char} {c : Char}
    {follows : List Char → Prop} (meeting : Meeting condition answer chars follows)
    (passed : isPassedOver c = true) : Meeting condition answer (c :: chars) follows :=
  fun state more follow stands => meeting state more follow (stands.passed passed)

/-- What may follow is of no kind that some production could still take. -/
theorem meeting_isAt_of_stops {kinds : List TokenKind} {kind : TokenKind} (member : kind ∈ kinds) :
    Meeting (isAt kind) false [] (Stops kinds) := by
  refine meeting_of_offers (fun more follow => follow.offers) fun state other text has here => ?_
  rw [has.isAt_eq, beq_eq_false_iff_ne]
  exact fun same => here (same ▸ member)

namespace Accepts

variable {chars back : List Char} {follows follows' : List Char → Prop}
  {part second : Production} {holds holds' : List Tree → Prop}

/-! ### General rules -/

theorem mono (accepts : Accepts chars follows part holds)
    (weaker : ∀ trees, holds trees → holds' trees) : Accepts chars follows part holds' where
  toIsSteady := accepts.toIsSteady
  reads state more follow stands within := by
    obtain ⟨stands, ⟨trees, told, found⟩, shown⟩ := accepts.reads state more follow stands within
    exact ⟨stands, ⟨trees, told, weaker trees found⟩, shown⟩

theorem narrow (accepts : Accepts chars follows part holds)
    (narrower : ∀ more, follows' more → follows more) : Accepts chars follows' part holds where
  toIsSteady := accepts.toIsSteady
  reads state more follow := accepts.reads state more (narrower more follow)

/-- A production that acts like one that accepts some characters, where they are at hand. -/
theorem congr (accepts : Accepts chars follows second holds) (steady : IsSteady part)
    (like : ∀ (state : State) (more : List Char), follows more →
      state.StandsBefore (chars ++ more) → part state = second state) :
    Accepts chars follows part holds where
  toIsSteady := steady
  reads state more follow stands within := by
    rw [like state more follow stands] at within ⊢
    exact accepts.reads state more follow stands within

theorem nothing : Accepts [] follows id Nothing where
  toIsSteady := .nothing
  reads _ _ _ stands _ :=
    ⟨stands, ⟨[], rfl, rfl⟩, fun ⟨_, member, _⟩ => absurd member List.not_mem_nil⟩

/-- One production after the other. -/
theorem andThen (first : Accepts chars follows part holds)
    (next : Accepts back follows' second holds')
    (apart : ∀ more, follows' more → follows (back ++ more)) :
    Accepts (chars ++ back) follows' (fun state => second (part state)) (Then holds holds') where
  toIsSteady := first.toIsSteady.andThen next.toIsSteady
  reads state more follow stands within := by
    rw [List.append_assoc] at stands
    have within' := (next.leadsTo (part state)).isWithinLimit within
    obtain ⟨stands, ⟨front, told, found⟩, shown⟩ :=
      first.reads state _ (apart more follow) stands within'
    obtain ⟨stands', ⟨rest, told', found'⟩, shown'⟩ := next.reads _ more follow stands within
    refine ⟨stands', ⟨front ++ rest, ?_, front, rest, rfl, found, found'⟩, ?_⟩
    · rw [told', told, List.reverse_append, List.append_assoc]
    · rintro ⟨c, member, visible⟩
      rcases List.mem_append.1 member with member | member
      · exact lt_of_le_of_lt (next.leadsTo _).upcoming_le (shown ⟨c, member, visible⟩)
      · exact lt_of_lt_of_le (shown' ⟨c, member, visible⟩) (first.leadsTo _).upcoming_le

/-- A production that adds nothing in front of another one. -/
theorem silently (first : Accepts chars follows part Nothing)
    (next : Accepts back follows' second holds)
    (apart : ∀ more, follows' more → follows (back ++ more)) :
    Accepts (chars ++ back) follows' (fun state => second (part state)) holds := by
  refine (first.andThen next apart).mono ?_
  rintro trees ⟨_, rest, rfl, rfl, found⟩
  exact found

/-- What is passed over may stand in front. -/
theorem passed (accepts : Accepts chars follows part holds) {c : Char}
    (passed : isPassedOver c = true) : Accepts (c :: chars) follows part holds where
  toIsSteady := accepts.toIsSteady
  reads state more follow stands within := by
    obtain ⟨stands, told, shown⟩ := accepts.reads state more follow (stands.passed passed) within
    refine ⟨stands, told, fun ⟨d, member, visible⟩ => shown ⟨d, ?_, visible⟩⟩
    rcases List.mem_cons.1 member with rfl | member
    · rw [passed] at visible
      cases visible
    · exact member

theorem passed_all (accepts : Accepts chars follows part holds) {gap : List Char}
    (passed : IsGap gap) :
    Accepts (gap ++ chars) follows part holds := by
  induction gap with
  | nil => exact accepts
  | cons c gap ih =>
      rw [isGap_cons_iff] at passed
      exact (ih passed.2).passed passed.1

/-- What is passed over may stand behind. -/
theorem padded (accepts : Accepts chars follows part holds) {gap : List Char}
    (passed : IsGap gap)
    (apart : ∀ more, follows' more → follows (gap ++ more)) :
    Accepts (chars ++ gap) follows' part holds where
  toIsSteady := accepts.toIsSteady
  reads state more follow stands within := by
    rw [List.append_assoc] at stands
    obtain ⟨stands, told, shown⟩ := accepts.reads state _ (apart more follow) stands within
    refine ⟨stands.passed_all passed, told, fun ⟨d, member, visible⟩ => shown ⟨d, ?_, visible⟩⟩
    rcases List.mem_append.1 member with member | member
    · exact member
    · rw [passed d member] at visible
      cases visible

/-! ### Choices -/

theorem choose_yes {condition : State → Bool} (here : Meeting condition true chars follows)
    (other : IsSteady second) (accepts : Accepts chars follows part holds) :
    Accepts chars follows (choose condition part second) holds :=
  accepts.congr (accepts.toIsSteady.choose other) fun state more follow stands => by
    simp [choose, here state more follow stands]

theorem choose_no {condition : State → Bool} (here : Meeting condition false chars follows)
    (other : IsSteady part) (accepts : Accepts chars follows second holds) :
    Accepts chars follows (choose condition part second) holds :=
  accepts.congr (other.choose accepts.toIsSteady) fun state more follow stands => by
    simp [choose, here state more follow stands]

theorem whenever_yes {condition : State → Bool} (here : Meeting condition true chars follows)
    (accepts : Accepts chars follows part holds) :
    Accepts chars follows (whenever condition part) holds :=
  choose_yes here .nothing accepts

theorem whenever_no {condition : State → Bool} (here : Meeting condition false [] follows)
    (other : IsSteady part) : Accepts [] follows (whenever condition part) Nothing :=
  choose_no here other nothing

/-! ### Tokens -/

section Tokens

variable {text : String} {kind : TokenKind} (spells : Spells text kind follows)
include spells

/-- Taking a token adds its leaf, if that tells something. -/
theorem of_bump (role : TokenRole) : Accepts text.toList follows (bump role) fun trees =>
    ∃ place, trees = telling [.leaf role text place] where
  toIsSteady := .bump role
  reads state more follow stands _ := by
    obtain ⟨stands, fewer, place, children⟩ := stands.bump spells follow role
    refine ⟨stands, ⟨_, ?_, place, rfl⟩, fun _ => fewer⟩
    rw [told, children, ← List.singleton_append, Tree.telling_append, ← told, told_flush]
    cases tells : Tree.tells (.leaf role text place) with
    | true => rw [Tree.telling_cons_of_tells _ tells]; rfl
    | false => rw [Tree.telling_cons_of_not_tells _ tells]; rfl

theorem of_take : Accepts text.toList follows take Nothing :=
  (of_bump spells .part).mono fun _ ⟨_, found⟩ => found

/-- A branch of a single token. -/
theorem branch_take (branchKind : TreeKind) :
    Accepts text.toList follows (branch branchKind take) fun trees => ∃ start stop place,
      trees = [.branch branchKind start stop [.leaf .part text place]] where
  toIsSteady := IsSteady.take.branch
  reads state more follow stands _ := by
    have settled := (stands.hasToken (spells.shows follow)).isSettled
    obtain ⟨closed, fewer, place, children⟩ := stands.opened.bump spells follow .part
    refine ⟨closed.congr ⟨rfl, rfl, rfl, rfl⟩,
      ⟨[_], told_branch branchKind take state, state.flush.length, (take state.opened).length,
        place, ?_⟩, fun _ => lt_of_lt_of_le fewer (leadsTo_opened state).upcoming_le⟩
    have content : (take state.opened).children = [.leaf .part text place] := by
      rw [take, children, settled.children_flush_opened]
    rw [content]
    rfl

end Tokens

/-- Taking a mark. -/
theorem of_mark {c : Char} {kind : TokenKind}
    (punctuation : TokenKind.ofPunctuation? c = some kind) (kept : kind.isIgnored = false) :
    Accepts [c] (fun _ => True) take Nothing := by
  have taken := of_take (spells_of_ofPunctuation? punctuation kept)
  rwa [String.toList_ofList] at taken

/-- A closing mark is taken where it stands. -/
theorem of_close (mark : ClosingMark) {c : Char}
    (punctuation : TokenKind.ofPunctuation? c = some mark.kind) :
    Accepts [c] (fun _ => True) (close mark) Nothing := by
  have kept : mark.kind.isIgnored = false := by cases mark <;> rfl
  refine (of_mark punctuation kept).congr (.close mark) fun state more follow stands => ?_
  have offers : Offers (fun kind _ => kind = mark.kind) ([c] ++ more) :=
    offers_of_punctuation punctuation kept rfl more
  obtain ⟨kind, text, shows, rfl⟩ := offers
  obtain ⟨start, current⟩ := (stands.hasToken shows).current
  simp [close, current]

theorem of_descend (left : Nat) : Accepts [] (fun _ => True) (descend left) Nothing where
  toIsSteady := .descend left
  reads _ _ _ stands _ :=
    ⟨stands.congr ⟨rfl, rfl, rfl, rfl⟩, ⟨[], rfl, rfl⟩,
      fun ⟨_, member, _⟩ => absurd member List.not_mem_nil⟩

/-- Where a depth beyond the limit is tried nothing needs to be accepted. -/
theorem of_exceeds (exceeds : Exceeds part) : Accepts chars follows part holds where
  toIsSteady := exceeds.toIsSteady
  reads state _ _ _ within := absurd within (exceeds.beyond state)

/-- Whatever is passed over behind a production is passed over already. -/
theorem skipped (accepts : Accepts chars follows part holds) :
    Accepts chars follows (fun state => (part state).skip) holds where
  toIsSteady := accepts.toIsSteady.andThen .skip
  reads state more follow stands within := by
    have within' := (leadsTo_skip (part state)).isWithinLimit within
    have read := accepts.reads state more follow stands within'
    rw [read.1.skip_eq]
    exact read

/-! ### Branches -/

theorem of_branch {kind : TreeKind} (accepts : Accepts chars follows part holds) :
    Accepts chars follows (branch kind part) (Branched kind holds) where
  toIsSteady := accepts.toIsSteady.branch
  reads state more follow stands within := by
    obtain ⟨closed, ⟨trees, told, found⟩, shown⟩ :=
      accepts.reads state.opened more follow stands.opened within
    refine ⟨closed.congr ⟨rfl, rfl, rfl, rfl⟩, ⟨[_], told_branch kind part state, _, _, _, rfl, ?_⟩,
      fun visible => lt_of_lt_of_le (shown visible) (leadsTo_opened state).upcoming_le⟩
    rw [Tree.telling_reverse, ← State.told, told, told_opened, List.append_nil,
      List.reverse_reverse]
    exact found

section NonNull

/-- What may be the content of a non-null type is read where its content begins. -/
theorem exists_perhapsNonNull_eq (part : Production) (state : State) :
    ∃ read : State, (part { state.flush with children := [] }).skip = read ∧
      read.LeadsTo (perhapsNonNull part state) ∧
      (read.isAt .exclamation = true → perhapsNonNull part state =
        { read.bump .part with
          children := .branch .nonNullType state.flush.length (read.eat .part).length
            (read.eat .part).children.reverse :: state.flush.children }) ∧
      (read.isAt .exclamation = false → perhapsNonNull part state =
        ({ read with children := read.children ++ state.flush.children } : State).skip) := by
  refine ⟨_, rfl, IsSteady.leadsTo_perhapsNonNull part state, fun marked => ?_, fun unmarked => ?_⟩
  · unfold perhapsNonNull
    simp only
    rw [marked, if_pos rfl]
    exact skip_with_children _ _
  · unfold perhapsNonNull
    simp only
    rw [unmarked, if_neg Bool.false_ne_true]

variable (steady : IsSteady part)
  (accepts : Accepts chars follows (fun state => (part state).skip) holds)
include steady accepts

theorem perhapsNonNull_no
    (unmarked : ∀ more, follows more → Offers (fun kind _ => kind ≠ .exclamation) more) :
    Accepts chars follows (perhapsNonNull part) holds where
  toIsSteady := steady.perhapsNonNull
  reads state more follow stands within := by
    have inner : ({ state.flush with children := [] } : State).StandsBefore (chars ++ more) :=
      stands.flush.congr ⟨rfl, rfl, rfl, rfl⟩
    obtain ⟨read, content, leads, _, closed⟩ := exists_perhapsNonNull_eq part state
    obtain ⟨behind, ⟨trees, told, found⟩, shown⟩ :=
      accepts.reads _ more follow inner (content ▸ leads.isWithinLimit within)
    rw [content] at behind told shown
    obtain ⟨kind, text, shows, other⟩ := unmarked more follow
    have unmarked := (behind.hasToken shows).isAt_eq .exclamation
    rw [beq_eq_false_iff_ne.2 other] at unmarked
    have joined : ({ read with children := read.children ++ state.flush.children } :
        State).StandsBefore more := behind.congr ⟨rfl, rfl, rfl, rfl⟩
    rw [closed unmarked, joined.skip_eq]
    refine ⟨joined, ⟨trees, ?_, found⟩, fun visible => ?_⟩
    · rw [State.told, telling_append, ← State.told, ← State.told, told_flush, told]
      exact congrArg (· ++ state.told) (List.append_nil _)
    · simpa using shown visible

theorem perhapsNonNull_yes (apart : ∀ more, follows ('!' :: more)) :
    Accepts (chars ++ ['!']) (fun _ => True) (perhapsNonNull part)
      (Branched .nonNullType holds) where
  toIsSteady := steady.perhapsNonNull
  reads state more _ stands within := by
    rw [List.append_assoc] at stands
    have inner : ({ state.flush with children := [] } : State).StandsBefore
        (chars ++ '!' :: more) := stands.flush.congr ⟨rfl, rfl, rfl, rfl⟩
    obtain ⟨read, content, leads, closed, _⟩ := exists_perhapsNonNull_eq part state
    obtain ⟨behind, ⟨trees, told, found⟩, shown⟩ :=
      accepts.reads _ _ (apart more) inner (content ▸ leads.isWithinLimit within)
    rw [content] at behind told
    have mark : Spells "!" .exclamation fun _ => True := spells_of_ofPunctuation? rfl rfl
    have marked := (behind.hasToken (mark.shows trivial)).isAt_eq .exclamation
    obtain ⟨further, fewer, place, children⟩ := behind.bump mark trivial .part
    rw [State.bump, children_skip] at children
    rw [closed (marked.trans (beq_self_eq_true _))]
    refine ⟨further.congr ⟨rfl, rfl, rfl, rfl⟩, ⟨[.branch .nonNullType state.flush.length
      (read.eat .part).length (read.eat .part).children.reverse], ?_, _, _, _, rfl, ?_⟩,
      fun _ => ?_⟩
    · rw [State.told, telling_cons_of_tells _ rfl, ← State.told, told_flush]
      rfl
    · rw [telling_reverse, children, telling_cons_of_not_tells _ rfl, ← State.told, told_flush,
        told, List.reverse_append, List.reverse_reverse]
      exact found
    · have emptied : state.flush.LeadsTo { state.flush with children := [] } :=
        .of_eq rfl rfl rfl rfl
      have before := ((leadsTo_flush state).trans emptied).trans ((steady.andThen .skip).leadsTo _)
      rw [content] at before
      exact lt_of_lt_of_le fewer before.upcoming_le

end NonNull

/-! ### Repetition -/

/-- Texts with gaps between them are the first text and then the others, each behind a gap. -/
theorem intercalate_cons (gap first : List Char) (rest : List (List Char)) :
    gap.intercalate (first :: rest) = first ++ rest.flatMap (gap ++ ·) := by
  induction rest generalizing first with
  | nil => simp [List.intercalate]
  | cons second rest ih =>
      rw [List.flatMap_cons, List.append_assoc, ← ih]
      simp [List.intercalate]

/-- Behind an item the others may follow, each behind a gap, if any of them may. -/
theorem apart_of_forall {α : Type} {text : α → List Char} {gap : List Char}
    {between : List Char → Prop} {items : List α}
    (apart : ∀ item ∈ items, ∀ more, between (gap ++ (text item ++ more)))
    (last : ∀ more, follows more → between more) (item : α) (rest : List α)
    (suffix : item :: rest <:+ items) (more : List Char) (follow : follows more) :
    between ((rest.map text).flatMap (gap ++ ·) ++ more) := by
  cases rest with
  | nil => exact last more follow
  | cons other rest =>
      have member : other ∈ items := suffix.subset (by simp)
      rw [List.map_cons, List.flatMap_cons, List.append_assoc, List.append_assoc]
      exact apart other member _

/-- Items can be read one after the other with gaps between them, as long as a condition holds. -/
structure IsSeries {α : Type} (condition : State → Bool) (part : Production) (gap : List Char)
    (text : α → List Char) (between : α → List Char → Prop) (given : α → List Tree → Prop)
    (items : List α) (follows : List Char → Prop) : Prop where
  steady : IsSteady part
  each : ∀ item ∈ items, Accepts (text item) (between item) part (given item)
  shown : ∀ item ∈ items, IsShown (text item)
  passed : IsGap gap
  goes_on : ∀ item ∈ items, Meeting condition true (text item) (between item)
  ends : Meeting condition false [] follows
  apart : ∀ item rest, item :: rest <:+ items → ∀ more, follows more →
    between item ((rest.map text).flatMap (gap ++ ·) ++ more)

section Series

variable {α : Type} {condition : State → Bool} {text : α → List Char} {gap : List Char}
  {between : α → List Char → Prop} {given : α → List Tree → Prop} {items : List α}

/-- The first item is dropped. -/
theorem IsSeries.tail {item : α}
    (series : IsSeries condition part gap text between given (item :: items) follows) :
    IsSeries condition part gap text between given items follows where
  steady := series.steady
  each := (List.forall_mem_cons.1 series.each).2
  shown := (List.forall_mem_cons.1 series.shown).2
  passed := series.passed
  goes_on := (List.forall_mem_cons.1 series.goes_on).2
  ends := series.ends
  apart item rest suffix := series.apart item rest (suffix.trans (List.suffix_cons _ _))

/-- The condition holds in front of the first item. -/
theorem IsSeries.meeting (series : IsSeries condition part gap text between given items follows)
    (some : items ≠ []) : Meeting condition true (gap.intercalate (items.map text)) follows := by
  cases items with
  | nil => exact absurd rfl some
  | cons item items =>
      rw [List.map_cons, intercalate_cons]
      exact (series.goes_on item List.mem_cons_self).append
        (series.apart item items (List.suffix_refl _))

/-- Repeating a production as often as there are lexemes is enough, since each item takes one. -/
theorem IsSeries.repeatAlong_reads
    (series : IsSeries condition part gap text between given items follows)
    (lexemes : List Lexeme) {state : State} {more : List Char}
    (enough : state.upcoming.length ≤ lexemes.length) (follow : follows more)
    (stands : state.StandsBefore (gap.intercalate (items.map text) ++ more))
    (within : (repeatAlong condition part lexemes state).IsWithinLimit) :
    (repeatAlong condition part lexemes state).StandsBefore more ∧
      (∃ trees, (repeatAlong condition part lexemes state).told = trees.reverse ++ state.told ∧
        Each given items trees) ∧
      (items ≠ [] →
        (repeatAlong condition part lexemes state).upcoming.length < state.upcoming.length) := by
  induction items generalizing lexemes state with
  | nil =>
      have stops : condition state = false := series.ends state more follow stands
      have same : repeatAlong condition part lexemes state = state := by
        cases lexemes <;> simp [repeatAlong, stops]
      rw [same]
      exact ⟨stands, ⟨[], rfl, .nil⟩, fun some => absurd rfl some⟩
  | cons item items ih =>
      have each := series.each item List.mem_cons_self
      have shown := series.shown item List.mem_cons_self
      have starts := series.meeting (List.cons_ne_nil _ _) state more follow stands
      have behind := series.apart item items (List.suffix_refl _) more follow
      rw [List.map_cons, intercalate_cons, List.append_assoc] at stands
      cases lexemes with
      | nil =>
          -- There is always a lexeme left where an item is taken.
          rw [repeatAlong, if_pos starts] at within
          have fewer := (each.reads state _ behind stands within).2.2 shown
          exact absurd (lt_of_lt_of_le fewer enough) (Nat.not_lt_zero _)
      | cons lexeme lexemes =>
          rw [repeatAlong, if_pos starts] at within ⊢
          have further : IsSteady fun state => repeatAlong condition part lexemes state :=
            series.steady.repeatAlong lexemes
          have within' := (further.leadsTo (part state)).isWithinLimit within
          obtain ⟨stands, ⟨front, told, found⟩, fewer⟩ := each.reads state _ behind stands within'
          have here : (part state).StandsBefore (gap.intercalate (items.map text) ++ more) := by
            cases items with
            | nil => exact stands
            | cons next items =>
                rw [List.map_cons, List.flatMap_cons, List.append_assoc,
                  List.append_assoc] at stands
                rw [List.map_cons, intercalate_cons, List.append_assoc]
                exact stands.passed_all series.passed
          obtain ⟨stands, ⟨back, told', found'⟩, _⟩ := ih series.tail lexemes
            (Nat.le_of_lt_succ (lt_of_lt_of_le (fewer shown) enough)) here within
          refine ⟨stands, ⟨front ++ back, ?_, .cons found found'⟩, fun _ => ?_⟩
          · rw [told', told, List.reverse_append, List.append_assoc]
          · exact lt_of_le_of_lt (further.leadsTo _).upcoming_le (fewer shown)

/-- **What is repeated accepts the texts of items one after the other**, with gaps between them. -/
theorem of_repeatWhile
    (series : IsSeries condition part gap text between given items follows) :
    Accepts (gap.intercalate (items.map text)) follows (repeatWhile condition part)
      (Each given items) where
  toIsSteady := series.steady.repeatWhile
  reads state more follow stands within := by
    obtain ⟨closed, told, fewer⟩ :=
      series.repeatAlong_reads state.upcoming (le_refl _) follow stands within
    refine ⟨closed, told, fun visible => fewer fun none => ?_⟩
    rw [none] at visible
    obtain ⟨c, member, _⟩ := visible
    cases member

/-- At least one item. -/
theorem of_several (problem : GrammarProblem) (some : items ≠ [])
    (series : IsSeries condition part gap text between given items follows) :
    Accepts (gap.intercalate (items.map text)) follows (several condition part problem)
      (Each given items) :=
  choose_yes (series.meeting some) (.report problem) (of_repeatWhile series)

/-- Items up to a mark that begins no item. -/
theorem IsSeries.upTo {c : Char} {kind : TokenKind} {allowed : TokenKind → String → Prop}
    {among : List Char → Prop} (punctuation : TokenKind.ofPunctuation? c = some kind)
    (kept : kind.isIgnored = false) (passed : IsGap gap)
    (steady : IsSteady part) (each : ∀ item ∈ items, Accepts (text item) among part (given item))
    (offers : ∀ item ∈ items, ∀ more, among more → Offers allowed (text item ++ more))
    (inside : ∀ text, ¬ allowed .endOfInput text)
    (goes_on : ∀ (state : State) (kind : TokenKind) (text : String), state.HasToken kind text →
      allowed kind text → condition state = true)
    (ends : ∀ (state : State) (text : String), state.HasToken kind text →
      condition state = false) (alone : among [])
    (apart : ∀ item ∈ items, ∀ more, among (gap ++ (text item ++ more)))
    (last : ∀ more, among (c :: more)) :
    IsSeries condition part gap text (fun _ => among) given items (Begins c) where
  steady := steady
  each := each
  shown item member := by
    have here := offers item member [] alone
    rw [List.append_nil] at here
    exact isShown_of_offers here inside
  passed := passed
  goes_on item member := meeting_of_offers (offers item member) goes_on
  ends := by
    refine meeting_of_offers (fun _ begins => offers_of_begins punctuation kept begins)
      fun state other text has same => ?_
    subst same
    exact ends state text has
  apart := apart_of_forall apart fun more begins => by
    obtain ⟨rest, rfl⟩ := begins
    exact last rest

/-- Items with commas between them, behind each of which there may be anything that ends words. -/
theorem IsSeries.commas {c : Char} {kind : TokenKind} {allowed : TokenKind → String → Prop}
    (punctuation : TokenKind.ofPunctuation? c = some kind) (kept : kind.isIgnored = false)
    (steady : IsSteady part) (each : ∀ item ∈ items, Accepts (text item) Ends part (given item))
    (offers : ∀ item ∈ items, ∀ more, Ends more → Offers allowed (text item ++ more))
    (inside : ∀ text, ¬ allowed .endOfInput text)
    (goes_on : ∀ (state : State) (kind : TokenKind) (text : String), state.HasToken kind text →
      allowed kind text → condition state = true)
    (ends : ∀ (state : State) (text : String), state.HasToken kind text →
      condition state = false) :
    IsSeries condition part [',', ' '] text (fun _ => Ends) given items (Begins c) :=
  .upTo punctuation kept (.of_all rfl) steady each offers inside goes_on ends ends_nil
    (fun _ _ _ => ends_of_isPassedOver rfl _) fun _ => ends_of_punctuation punctuation _

end Series

section Separated

variable {α : Type} {mark : TokenKind} {c : Char} {text : α → List Char}
  {between : List Char → Prop} {given : α → List Tree → Prop}
  (punctuation : TokenKind.ofPunctuation? c = some mark) (kept : mark.isIgnored = false)
  (steady : IsSteady part) {items : List α}
  (each : ∀ item ∈ items, Accepts (text item) between part (given item))
  (ends : Meeting (isAt mark) false [] follows)
  (apart : ∀ more, between (' ' :: c :: more)) (last : ∀ more, follows more → between more)

/-- An item behind a mark. -/
def markedText (c : Char) (text : List Char) : List Char := ' ' :: c :: ' ' :: text

include punctuation kept each in
theorem accepts_marked : ∀ item ∈ items, Accepts (markedText c (text item)) between
    (sequence [take, part]) (given item) := by
  intro item member
  have taken := of_take (spells_of_ofPunctuation? punctuation kept)
  rw [String.toList_ofList] at taken
  have both := taken.silently ((each item member).passed (c := ' ') rfl) fun _ _ => trivial
  exact both.passed rfl

include punctuation kept steady each ends apart last

theorem of_marked : Accepts (items.flatMap fun item => markedText c (text item)) follows
    (repeatWhile (isAt mark) (sequence [take, part])) (Each given items) := by
  have marks : ∀ more, Offers (fun kind _ => kind = mark) (' ' :: c :: more) := by
    intro more
    have marked : Offers (fun kind _ => kind = mark) (c :: more) :=
      offers_of_punctuation punctuation kept rfl more
    exact marked.passed rfl
  have joined : items.flatMap (fun item => markedText c (text item)) =
      List.intercalate [] (items.map fun item => markedText c (text item)) := by
    rw [intercalate_nil, List.flatMap_def]
  rw [joined]
  refine of_repeatWhile {
    steady := IsSteady.take.andThen steady
    each := accepts_marked punctuation kept each
    shown := fun _ _ => ⟨c, by simp [markedText], (spec_of_punctuation punctuation).1 kept⟩
    passed := .of_all rfl
    goes_on := fun _ _ => meeting_isAt_of_offers fun _ _ => marks _
    ends := ends
    apart := apart_of_forall (fun _ _ _ => apart _) last }

end Separated

/-- A list with separators, none of which stands in front. -/
theorem of_separated {α : Type} {mark : TokenKind} {c : Char} {text : α → List Char}
    {between : List Char → Prop} {given : α → List Tree → Prop}
    (punctuation : TokenKind.ofPunctuation? c = some mark) (kept : mark.isIgnored = false)
    (steady : IsSteady part) {first : α} {rest : List α}
    (each : ∀ item ∈ first :: rest, Accepts (text item) between part (given item))
    (begins : ∀ more, between more → Offers (fun kind _ => kind ≠ mark) (text first ++ more))
    (ends : Meeting (isAt mark) false [] follows)
    (apart : ∀ more, between (' ' :: c :: more)) (last : ∀ more, follows more → between more) :
    Accepts (text first ++ rest.flatMap fun item => markedText c (text item)) follows
      (separated mark part) (Each given (first :: rest)) := by
  rw [List.forall_mem_cons] at each
  have others := of_marked punctuation kept steady each.2 ends apart last
  have behind : ∀ more, follows more →
      between (rest.flatMap (fun item => markedText c (text item)) ++ more) := by
    intro more follow
    cases rest with
    | nil => exact last more follow
    | cons item rest => exact apart _
  have unmarked : Accepts [] (fun more => Offers (fun kind _ => kind ≠ mark) more)
      (whenAt mark take) Nothing :=
    whenever_no (meeting_of_offers (fun _ offers => offers) fun state kind text has other => by
      rw [has.isAt_eq, beq_eq_false_iff_ne]
      exact other) .take
  refine (unmarked.silently (each.1.andThen others behind) ?_).mono ?_
  · intro more follow
    rw [List.append_assoc]
    exact begins _ (behind more follow)
  · rintro trees ⟨front, back, rfl, found, found'⟩
    exact .cons found found'

end Accepts

end Grammar

end SchemaGraft
