import SchemaGraft.Name
import SchemaGraft.Token.Problem

/-!
# Tokens

The text of a document is cut into tokens. White space, comments and commas are tokens too, since
they count towards the limit on tokens and take room in the syntax tree, but the grammar passes
over them.
-/

set_option autoImplicit false

namespace SchemaGraft

/-- The kinds of tokens. -/
inductive TokenKind where
  | exclamation
  | dollar
  | ampersand
  | leftParenthesis
  | rightParenthesis
  | colon
  | comma
  | equalsSign
  | atSign
  | leftBracket
  | rightBracket
  | leftBrace
  | rightBrace
  | verticalBar
  | spread
  | name
  | int
  | float
  | string
  | whitespace
  | comment
  | endOfInput
  deriving DecidableEq

namespace TokenKind

/-- The kind of a token that is a single punctuation character. -/
def ofPunctuation? (c : Char) : Option TokenKind :=
  match c with
  | '!' => some exclamation
  | '$' => some dollar
  | '&' => some ampersand
  | '(' => some leftParenthesis
  | ')' => some rightParenthesis
  | ':' => some colon
  | ',' => some comma
  | '=' => some equalsSign
  | '@' => some atSign
  | '[' => some leftBracket
  | ']' => some rightBracket
  | '\x7b' => some leftBrace
  | '\x7d' => some rightBrace
  | '|' => some verticalBar
  | _ => none

/-- Whether the grammar passes over tokens of a kind. -/
def isIgnored : TokenKind → Bool
  | whitespace | comment | comma => true
  | _ => false

end TokenKind

/-- A token with its text and the byte offset at which it begins. -/
structure Token where
  kind : TokenKind
  text : String
  start : Nat
  deriving DecidableEq

/-- The characters of white space, the byte order mark among them. -/
def isBlank (c : Char) : Bool :=
  c == '\t' || c == ' ' || c == '\n' || c == '\r' || c == '\ufeff'

/-- The characters that end a comment. -/
def endsComment (c : Char) : Bool := c == '\n' || c == '\r'

/-- What a stretch of text turned out to be: a token or rejected text. -/
inductive Finding where
  | token (kind : TokenKind)
  | problem (problem : LexicalProblem)
  deriving DecidableEq

/-- A finding about the text that begins with some character, and how many characters after that
one belong to it. -/
structure Scanned where
  finding : Finding
  extra : Nat
  deriving DecidableEq

namespace Scanned

/-- A token. -/
def token (kind : TokenKind) (extra : Nat) : Scanned := ⟨.token kind, extra⟩

/-- Rejected text. -/
def problem (problem : LexicalProblem) (extra : Nat) : Scanned := ⟨.problem problem, extra⟩

end Scanned

end SchemaGraft
