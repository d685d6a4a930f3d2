/-!
# Places in a text

Locations are counted in bytes; people count lines and columns. Two countings are in use.

* `lineColumn?` is strict: it answers only for an offset that lies between two characters, and only
  a line feed ends a line.
* `reportPosition` is lenient: any offset is taken back to the start of the character that contains
  it and an offset beyond the end to the end (`charOffset`), and every line break of Unicode ends a
  line. Reports use it.

Both count lines and columns from one, and columns in characters.
-/

set_option autoImplicit false

namespace SchemaGraft

/-- A line and a column, both counted from one. -/
structure LineColumn where
  line : Nat
  column : Nat
  deriving DecidableEq

namespace LineColumn

/-- The first place of a text. -/
def start : LineColumn := ⟨1, 1⟩

/-- The place one character further on the same line. -/
def right (position : LineColumn) : LineColumn := ⟨position.line, position.column + 1⟩

/-- The beginning of the next line. -/
def nextLine (position : LineColumn) : LineColumn := ⟨position.line + 1, 1⟩

/-- The place after a character, where only a line feed ends a line. -/
def after (position : LineColumn) (c : Char) : LineColumn :=
  if c = '\n' then position.nextLine else position.right

end LineColumn

namespace Text

/-- The characters before a byte offset, if the offset lies between two characters. -/
def charsBefore? : Nat → List Char → Option (List Char)
  | 0, _ => some []
  | _ + 1, [] => none
  | offset + 1, c :: rest =>
    if c.utf8Size ≤ offset + 1 then
      (charsBefore? (offset + 1 - c.utf8Size) rest).map (c :: ·)
    else none

/-- The line and column of a byte offset that lies between two characters. -/
def lineColumn? (text : String) (offset : Nat) : Option LineColumn :=
  (charsBefore? offset text.toList).map fun before => before.foldl .after .start

/-- How many characters end at or before a byte offset. -/
def charsWithin : Nat → List Char → Nat
  | _, [] => 0
  | budget, c :: rest =>
    if c.utf8Size ≤ budget then charsWithin (budget - c.utf8Size) rest + 1 else 0

/-- The number of characters before a byte offset; an offset inside a character stands for its
start and one beyond the text for the end. -/
def charOffset (text : String) (offset : Nat) : Nat := charsWithin offset text.toList

/-- The characters that end a line in Unicode. -/
def isLineBreak (c : Char) : Bool :=
  c == '\n' || c == '\r' || c == '\u000b' || c == '\u000c' || c == '\u0085' ||
    c == '\u2028' || c == '\u2029'

/-- Whether a line ends after a character: a carriage return and the line feed after it are one
line break. -/
def endsLine (c : Char) (rest : List Char) : Bool :=
  isLineBreak c && !(c == '\r' && rest.head? == some '\n')

/-- Walks a number of characters from a place. The end of the text belongs to its last line, even
after a line break. -/
def walk (position : LineColumn) : Nat → List Char → LineColumn
  | 0, _ => position
  | _ + 1, [] => position
  | count + 1, c :: rest =>
    walk (if endsLine c rest && !rest.isEmpty then position.nextLine else position.right) count rest

/-- The line and column after a number of characters, as reports count them. -/
def positionAfter (text : String) (count : Nat) : LineColumn := walk .start count text.toList

/-- The line and column at which a report shows a byte offset. -/
def reportPosition (text : String) (offset : Nat) : LineColumn :=
  positionAfter text (charOffset text offset)

/-- Whether the characters between two byte offsets lie on more than one line. -/
def spansLines (text : String) (start stop : Nat) : Bool :=
  let first := charOffset text start
  let last := max first (charOffset text stop - 1)
  (positionAfter text first).line != (positionAfter text last).line

end Text

end SchemaGraft
