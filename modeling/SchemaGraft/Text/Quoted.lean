import SchemaGraft.Text.Hex

/-!
# Quoted strings

A quoted string stands on one line between quotes. `escape` writes quotes, backslashes, line breaks,
tabs and control characters as escapes and leaves all else as it is; `unescape` reads every escape
that a string may contain, also those that `escape` does not write.
-/

set_option autoImplicit false

namespace SchemaGraft

namespace Text

/-! ## Writing -/

/-- The control characters of Unicode. -/
def isControl (c : Char) : Bool := c.toNat < 32 || (127 ≤ c.toNat && c.toNat < 160)

/-- A character as it is written inside quotes. -/
def escapeChar (c : Char) : List Char :=
  if c == '"' then ['\\', '"']
  else if c == '\\' then ['\\', '\\']
  else if c == '\n' then ['\\', 'n']
  else if c == '\r' then ['\\', 'r']
  else if c == '\t' then ['\\', 't']
  else if isControl c then '\\' :: 'u' :: fourHexDigits 'A' c.toNat
  else [c]

/-- Characters as they are written inside quotes. -/
def escape (chars : List Char) : List Char := chars.flatMap escapeChar

/-- A text as a quoted string. -/
def quote (text : String) : String := String.ofList ('"' :: (escape text.toList ++ ['"']))

/-! ## Reading -/

/-- The character that a letter stands for after a backslash. -/
def unescapeChar (c : Char) : Char :=
  if c == 'b' then '\u0008'
  else if c == 'f' then '\u000c'
  else if c == 'n' then '\n'
  else if c == 'r' then '\r'
  else if c == 't' then '\t'
  else c

/-- The characters that stand inside quotes, with their escapes read. -/
def unescape : List Char → List Char
  | '\\' :: 'u' :: a :: b :: c :: d :: rest =>
    Char.ofNat (hexValue [a, b, c, d]) :: unescape rest
  | '\\' :: c :: rest => unescapeChar c :: unescape rest
  | c :: rest => c :: unescape rest
  | [] => []

end Text

end SchemaGraft
