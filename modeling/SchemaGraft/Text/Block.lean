/-!
# Block strings

A block string stands between triple quotes and may have many lines. The indentation that all lines
but the first share is no part of its value, nor are blank lines at its beginning and end, and a
triple quote in it is written after a backslash.

`blockValue` reads what stands between the triple quotes. `blockLines` are the lines as they are
written: each line of the value with its triple quotes marked.
-/

set_option autoImplicit false

namespace SchemaGraft

namespace Text

/-! ## Reading -/

/-- The lines of a text. A line feed, a carriage return or both together end a line. -/
def splitLines : List Char → List (List Char)
  | [] => [[]]
  | '\r' :: '\n' :: rest => [] :: splitLines rest
  | c :: rest =>
    if c == '\n' || c == '\r' then [] :: splitLines rest
    else
      match splitLines rest with
      | [] => [[c]]
      | line :: lines => (c :: line) :: lines

/-- The characters that indent a line. -/
def isIndent (c : Char) : Bool := c == ' ' || c == '\t'

/-- Whether a line is blank. -/
def isBlankLine (line : List Char) : Bool := line.all isIndent

/-- How far a line is indented. -/
def indentation (line : List Char) : Nat := (line.takeWhile isIndent).length

/-- The smallest indentation of the lines that are not blank; zero if all are. -/
def commonIndentation (lines : List (List Char)) : Nat :=
  (((lines.filter fun line => !isBlankLine line).map indentation).min?).getD 0

/-- The lines without the indentation that all but the first share. -/
def dedent : List (List Char) → List (List Char)
  | [] => []
  | first :: rest =>
    let shared := commonIndentation rest
    first :: rest.map (·.drop shared)

/-- The lines without the blank ones at the end; the first line stays in any case. -/
def trimEnd : List (List Char) → List (List Char)
  | [] => []
  | first :: rest => first :: (rest.reverse.dropWhile isBlankLine).reverse

/-- The lines without the blank ones at the beginning and at the end. -/
def trimBlank (lines : List (List Char)) : List (List Char) := trimEnd (lines.dropWhile isBlankLine)

/-- Triple quotes without the backslash before them. -/
def unmarkQuotes : List Char → List Char
  | '\\' :: '"' :: '"' :: '"' :: rest => '"' :: '"' :: '"' :: unmarkQuotes rest
  | c :: rest => c :: unmarkQuotes rest
  | [] => []

/-- Lines with a line feed between them. -/
def joinLines : List (List Char) → List Char
  | [] => []
  | [line] => line
  | line :: rest => line ++ '\n' :: joinLines rest

/-- The value of what stands between the triple quotes of a block string. -/
def blockValue (chars : List Char) : List Char :=
  joinLines ((trimBlank (dedent (splitLines chars))).map unmarkQuotes)

/-! ## Writing -/

/-- The lines of a text that is shown. Only a line feed, with or without a carriage return before
it, ends a line, and no line begins after the last one. -/
def shownLines : List Char → List (List Char)
  | [] => []
  | '\r' :: '\n' :: rest => [] :: shownLines rest
  | '\n' :: rest => [] :: shownLines rest
  | c :: rest =>
    match shownLines rest with
    | [] => [[c]]
    | line :: lines => (c :: line) :: lines

/-- Triple quotes with a backslash before them. -/
def markQuotes : List Char → List Char
  | '"' :: '"' :: '"' :: rest => '\\' :: '"' :: '"' :: '"' :: markQuotes rest
  | c :: rest => c :: markQuotes rest
  | [] => []

/-- The lines that write a value between triple quotes. -/
def blockLines (chars : List Char) : List (List Char) := (shownLines chars).map markQuotes

/-! ## String tokens -/

/-- Whether a string token stands between triple quotes. -/
def isBlock (token : List Char) : Bool :=
  token.take 3 == ['"', '"', '"']

/-- The characters between two ends of the same length. -/
def inner (count : Nat) (chars : List Char) : List Char :=
  (chars.drop count).take (chars.length - 2 * count)

end Text

end SchemaGraft
