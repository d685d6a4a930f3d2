import SchemaGraft.Token.Number
import SchemaGraft.Token.Quoted

/-!
# Lexemes

`lexemes` cuts a text into lexemes: tokens, and stretches of rejected text. One after the other
they make up the whole text; the last one is the end of the input or the report that the limit on
lexemes was reached.

The cutting walks over the characters once. At the beginning of a lexeme `scan` says how many
characters it takes, and these are skipped one by one.
-/

set_option autoImplicit false

namespace SchemaGraft

/-- A stretch of text with the problem that made it no token, or made it unfit for its place. -/
structure Fault (ρ : Type) where
  problem : ρ
  text : String
  /-- The byte offset at which the problem is reported. -/
  start : Nat

/-- A token, or text that is none. -/
inductive Lexeme where
  | token (token : Token)
  | rejected (fault : Fault LexicalProblem)

/-- What the text that begins with a character is. -/
def scan (first : Char) (rest : List Char) : Scanned :=
  match TokenKind.ofPunctuation? first with
  | some kind => .token kind 0
  | none =>
    if isNameStart first then .token .name (rest.takeWhile isNameContinue).length
    else if isBlank first then .token .whitespace (rest.takeWhile isBlank).length
    else if first == '#' then .token .comment (rest.takeWhile fun c => !endsComment c).length
    else if first == '"' then .afterQuote rest
    else if first == '-' then .afterMinus rest
    else if first.isDigit then .afterFirstDigit first 0 rest
    else if first == '.' then
      match rest with
      | [] => .problem .unterminatedSpread 0
      | '.' :: '.' :: _ => .token .spread 2
      | _ => .problem .unterminatedSpread 1
    else .problem (.unexpectedCharacter first) 0

/-- The lexeme that a finding makes of a stretch of text. -/
def Finding.lexeme (finding : Finding) (text : String) (start : Nat) : Lexeme :=
  match finding with
  | .token kind => .token ⟨kind, text, start⟩
  | .problem reason => .rejected ⟨reason, text, if reason.isLocated then start else 0⟩

/-- The lexemes of the characters from a byte offset on, after skipping those that belong to the
lexeme before. `allowed` bounds the number of lexemes. -/
def lexemesFrom (allowed : Option Nat) (skip offset : Nat) : List Char → List Lexeme
  | [] =>
    match allowed with
    | some 0 => [.rejected ⟨.tokenLimitReached, "", offset - 1⟩]
    | _ => [.token ⟨.endOfInput, "", if offset = 0 then 1 else offset⟩]
  | c :: rest =>
    match skip with
    | skip + 1 => lexemesFrom allowed skip (offset + c.utf8Size) rest
    | 0 =>
      match allowed with
      | some 0 => [.rejected ⟨.tokenLimitReached, "", offset⟩]
      | _ =>
        let scanned := scan c rest
        scanned.finding.lexeme (String.ofList (c :: rest.take scanned.extra)) offset ::
          lexemesFrom (allowed.map (· - 1)) scanned.extra (offset + c.utf8Size) rest

/-- The lexemes of a text, no more of them than the limit allows and the report of the limit. -/
def lexemes (limit : Option Nat) (text : String) : List Lexeme :=
  lexemesFrom limit 0 0 text.toList

end SchemaGraft
