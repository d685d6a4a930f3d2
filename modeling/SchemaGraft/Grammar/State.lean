import SchemaGraft.Grammar.Problem
import SchemaGraft.Tree.Basic

/-!
# The state of reading a document

The productions of the grammar are functions on `State`. A state holds the current token, the
lexemes after it, and what has been made of the tokens before: the children of the branch that is
being built, the problems found, and the tokens that were passed over but have no place in the tree
yet. Those are put into the tree before the next token or branch, so that they belong to the
construct that was open when the next thing began.

Rejected text is noted as soon as reading comes past it. After a limit was reached no problem of
the grammar is noted any more.

`sequence`, `whenAt`, `repeatWhile` and `branch` put productions together.
-/

set_option autoImplicit false

namespace SchemaGraft

namespace Grammar

/-- How far the reading of a document has come. -/
structure State where
  /-- The token at hand; none after the end of the input or once the token limit was reached. -/
  current : Option Token
  /-- The lexemes after it. -/
  upcoming : List Lexeme
  /-- Tokens passed over that are not in the tree yet, latest first. -/
  ignored : List Token
  /-- The trees of the branch that is being built, latest first. -/
  children : List Tree
  /-- The bytes of the tokens in the tree. -/
  length : Nat
  /-- The problems found, latest first. -/
  faults : List SyntaxFault
  /-- Whether problems of the grammar are still noted. -/
  accepting : Bool
  /-- How deep values, types and selection sets may nest. -/
  depthLimit : Nat
  /-- The greatest depth that was tried. -/
  deepest : Nat

/-- A rule of the grammar: it reads what it describes and adds it to the tree. -/
abbrev Production := State → State

namespace State

/-! ## Looking at the input -/

/-- The kind of the current token. -/
def kind? (state : State) : Option TokenKind := state.current.map (·.kind)

/-- Whether the current token is of a kind. -/
def isAt (kind : TokenKind) (state : State) : Bool := state.kind? == some kind

/-- Whether the current token is of one of two kinds. -/
def isAtEither (first second : TokenKind) (state : State) : Bool :=
  state.isAt first || state.isAt second

/-- Whether the current token has a text. -/
def isAtText (text : String) (state : State) : Bool := state.current.any (·.text == text)

/-- The first token of some lexemes that is neither white space nor a comment. -/
def firstVisible? : List Lexeme → Option Token
  | [] => none
  | .rejected _ :: rest => firstVisible? rest
  | .token token :: rest =>
    if token.kind == .whitespace || token.kind == .comment then firstVisible? rest
    else some token

/-- The token after the current one that is neither white space nor a comment. -/
def following? (state : State) : Option Token := firstVisible? state.upcoming

/-! ## Noting problems -/

/-- Notes a problem. A limit that was reached is the last problem of the grammar. -/
def note (fault : SyntaxFault) (state : State) : State :=
  { state with
    faults := fault :: state.faults
    accepting := state.accepting && !fault.problem.isLimit }

/-- Notes a problem of the grammar about a token, unless a limit was reached. -/
def reportAbout (problem : GrammarProblem) (token : Token) (state : State) : State :=
  if state.accepting then state.note ⟨.grammatical problem, token.text, token.start⟩ else state

/-- Notes a problem of the grammar about the current token, if there is one. -/
def report (problem : GrammarProblem) (state : State) : State :=
  match state.current with
  | some token => state.reportAbout problem token
  | none => state

/-- Notes that the limit on depth was reached. -/
def reportDepth (state : State) : State :=
  match state.current with
  | some token =>
    if state.accepting then state.note ⟨.grammatical .recursionLimitReached, "", token.start⟩
    else state
  | none => state

/-! ## Reading on -/

/-- Puts a token aside for the next branch or token to take in. -/
def setAside (token : Token) (state : State) : State :=
  { state with ignored := token :: state.ignored }

/-- Reads on to the next token, past ignored ones if asked for. -/
def seek (passing : Bool) (state : State) : List Lexeme → State
  | [] => { state with current := none, upcoming := [] }
  | .rejected fault :: rest =>
    seek passing (state.note ⟨.lexical fault.problem, fault.text, fault.start⟩) rest
  | .token token :: rest =>
    if passing && token.kind.isIgnored then seek passing (state.setAside token) rest
    else { state with current := some token, upcoming := rest }

/-- Reads on to the next token. -/
def next (state : State) : State := seek false state state.upcoming

/-- Passes over ignored tokens. -/
def skip (state : State) : State :=
  match state.current with
  | some token =>
    if token.kind.isIgnored then seek true (state.setAside token) state.upcoming else state
  | none => state

/-- The state before a list of lexemes. -/
def start (depthLimit : Nat) (lexemes : List Lexeme) : State :=
  seek false ⟨none, [], [], [], 0, [], true, depthLimit, 0⟩ lexemes

/-! ## Growing the tree -/

/-- Adds a token to the branch that is being built. -/
def push (role : TokenRole) (token : Token) (state : State) : State :=
  { state with
    children := .leaf role token.text state.length :: state.children
    length := state.length + token.text.utf8ByteSize }

/-- Adds the tokens that were passed over. -/
def flush (state : State) : State :=
  state.ignored.reverse.foldl (fun state token => state.push .ignored token)
    { state with ignored := [] }

/-- Adds the current token and reads on to the next one. -/
def eat (role : TokenRole) (state : State) : State :=
  let state := state.flush
  match state.current with
  | some token => (state.push role token).next
  | none => state

/-- Adds the current token and passes over ignored ones after it. -/
def bump (role : TokenRole) (state : State) : State := (state.eat role).skip

/-- Adds the current token as one that fits nowhere, notes why, and reads on. -/
def reject (problem : GrammarProblem) (state : State) : State :=
  let state := state.flush
  match state.current with
  | some token => ((state.push .rejected token).reportAbout problem token).next.skip
  | none => state

/-- Marks that a depth was tried, given how many levels were left before. -/
def descend (left : Nat) (state : State) : State :=
  { state with deepest := max state.deepest (state.depthLimit - left + 1) }

end State

/-! ## Putting productions together -/

/-- One production after the other. -/
def sequence (parts : List Production) : Production :=
  fun state => parts.foldl (fun state part => part state) state

/-- Takes the current token, whatever it is. -/
def take : Production := State.bump .part

/-- Notes a problem about the current token. -/
def report (problem : GrammarProblem) : Production := State.report problem

/-- Refuses the current token. -/
def reject (problem : GrammarProblem) : Production := State.reject problem

/-- Chooses between two productions. -/
def choose (condition : State → Bool) (first second : Production) : Production :=
  fun state => if condition state then first state else second state

/-- A production that is used only where a condition holds. -/
def whenever (condition : State → Bool) (part : Production) : Production :=
  choose condition part id

/-- A production that is used only at a kind of token. -/
def whenAt (kind : TokenKind) (part : Production) : Production := whenever (State.isAt kind) part

/-- Repeats a production as long as a condition holds, at most once for every lexeme of a list and
once more. -/
def repeatAlong (condition : State → Bool) (part : Production) : List Lexeme → Production
  | [], state => if condition state then part state else state
  | _ :: lexemes, state =>
    if condition state then repeatAlong condition part lexemes (part state) else state

/-- Repeats a production that reads at least one token, as long as a condition holds. -/
def repeatWhile (condition : State → Bool) (part : Production) : Production :=
  fun state => repeatAlong condition part state.upcoming state

/-- Builds a branch from what a production reads. -/
def branch (kind : TreeKind) (part : Production) : Production := fun state =>
  let opened := state.flush
  let closed := part { opened with children := [] }.skip
  { closed with
    children :=
      .branch kind opened.length closed.length closed.children.reverse :: opened.children }

/-- Takes a closing mark, or notes that it is missing. -/
def close (mark : ClosingMark) : Production := fun state =>
  match state.current with
  | none => state
  | some token =>
    if token.kind == mark.kind then take state
    else
      let found := if token.kind == .endOfInput then none else some token.text
      state.reportAbout (.closingMarkExpected mark found) token

/-- A list whose items are separated by a mark, which may also stand before the first one. -/
def separated (mark : TokenKind) (item : Production) : Production :=
  sequence [whenAt mark take, item, repeatWhile (State.isAt mark) (sequence [take, item])]

/-- At least one item, or else a problem, and then more of them. -/
def several (condition : State → Bool) (item : Production) (problem : GrammarProblem) :
    Production :=
  choose condition (repeatWhile condition item) (report problem)

/-- Uses each production whose condition holds when its turn comes, and notes a problem if there
was none. -/
def someOf (problem : GrammarProblem) (parts : List ((State → Bool) × Production)) : Production :=
  fun state =>
    let (state, found) := parts.foldl
      (fun (state, found) (condition, part) =>
        if condition state then (part state, true) else (state, found))
      (state, false)
    if found then state else state.report problem

end Grammar

end SchemaGraft
