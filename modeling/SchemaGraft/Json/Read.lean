import SchemaGraft.Json.Basic
import SchemaGraft.Text.Hex

/-!
# Reading JSON

`Json.parse?` reads one value and blank space around it. A field that an object has twice keeps its
first place and its last value. Escaped surrogates make one character in pairs; a lone one is read
as the replacement character.

Every reader takes a bound on its steps and answers what it read together with the rest of the text.
No reading needs more than two steps for a character and two at the end.
-/

set_option autoImplicit false

namespace SchemaGraft

namespace Json

/-- Skips blank space. -/
def skipBlank (chars : List Char) : List Char :=
  chars.dropWhile fun c => c == ' ' || c == '\t' || c == '\n' || c == '\r'

/-- The number that four hexadecimal digits write. -/
def readFourDigits? : List Char → Option (Nat × List Char)
  | a :: b :: c :: d :: rest =>
    if [a, b, c, d].all Text.isHexDigit then some (Text.hexValue [a, b, c, d], rest) else none
  | _ => none

/-- The character of an escape by number; the second half of a surrogate pair is read too. -/
def readNumberedEscape? (chars : List Char) : Option (Char × List Char) := do
  let (first, rest) ← readFourDigits? chars
  if 0xD800 ≤ first ∧ first < 0xDC00 then
    match rest with
    | '\\' :: 'u' :: more =>
      let (second, after) ← readFourDigits? more
      if 0xDC00 ≤ second ∧ second < 0xE000 then
        return (Char.ofNat (0x10000 + (first - 0xD800) * 0x400 + (second - 0xDC00)), after)
      else return ('\ufffd', rest)
    | _ => return ('\ufffd', rest)
  else if 0xDC00 ≤ first ∧ first < 0xE000 then return ('\ufffd', rest)
  else return (Char.ofNat first, rest)

/-- The character of an escape of one letter. -/
def simpleEscape? (c : Char) : Option Char :=
  match c with
  | '"' => some '"'
  | '\\' => some '\\'
  | '/' => some '/'
  | 'b' => some '\u0008'
  | 'f' => some '\u000c'
  | 'n' => some '\n'
  | 'r' => some '\r'
  | 't' => some '\t'
  | _ => none

/-- The rest of a string after its opening quote, added to the text read so far. -/
def readString? : Nat → String → List Char → Option (String × List Char)
  | 0, _, _ => none
  | _ + 1, _, [] => none
  | steps + 1, read, c :: rest =>
    if c == '"' then some (read, rest)
    else if c == '\\' then
      match rest with
      | [] => none
      | escaped :: after =>
        if escaped == 'u' then
          match readNumberedEscape? after with
          | none => none
          | some (decoded, after) => readString? steps (read.push decoded) after
        else
          match simpleEscape? escaped with
          | none => none
          | some decoded => readString? steps (read.push decoded) after
    else readString? steps (read.push c) rest

/-- The characters that numbers are written with. -/
def isNumberChar (c : Char) : Bool :=
  c.isDigit || c == '-' || c == '+' || c == '.' || c == 'e' || c == 'E'

mutual

/-- A value. -/
def readValue? : Nat → List Char → Option (Json × List Char)
  | 0, _ => none
  | steps + 1, chars =>
    match skipBlank chars with
    | 'n' :: 'u' :: 'l' :: 'l' :: rest => some (.null, rest)
    | 't' :: 'r' :: 'u' :: 'e' :: rest => some (.bool true, rest)
    | 'f' :: 'a' :: 'l' :: 's' :: 'e' :: rest => some (.bool false, rest)
    | '"' :: rest => (readString? steps "" rest).map fun (text, rest) => (.string text, rest)
    | '[' :: rest =>
      match skipBlank rest with
      | ']' :: rest => some (.array [], rest)
      | rest => readItems? steps [] rest
    | '\x7b' :: rest =>
      match skipBlank rest with
      | '\x7d' :: rest => some (.object [], rest)
      | rest => readFields? steps [] rest
    | first :: rest =>
      if isNumberChar first then
        let digits := (first :: rest).takeWhile isNumberChar
        some (.number ⟨String.ofList digits⟩, (first :: rest).dropWhile isNumberChar)
      else none
    | [] => none

/-- The items of an array up to its end, after those read so far (latest first). -/
def readItems? : Nat → List Json → List Char → Option (Json × List Char)
  | 0, _, _ => none
  | steps + 1, read, chars =>
    match readValue? steps chars with
    | none => none
    | some (item, rest) =>
      match skipBlank rest with
      | ',' :: rest => readItems? steps (item :: read) rest
      | ']' :: rest => some (.array (item :: read).reverse, rest)
      | _ => none

/-- The fields of an object up to its end, after those read so far. -/
def readFields? : Nat → List (String × Json) → List Char → Option (Json × List Char)
  | 0, _, _ => none
  | steps + 1, read, chars =>
    match skipBlank chars with
    | '"' :: rest =>
      match readString? steps "" rest with
      | none => none
      | some (name, rest) =>
        match skipBlank rest with
        | ':' :: rest =>
          match readValue? steps rest with
          | none => none
          | some (value, rest) =>
            match skipBlank rest with
            | ',' :: rest => readFields? steps (setField name value read) rest
            | '\x7d' :: rest => some (.object (setField name value read), rest)
            | _ => none
        | _ => none
    | _ => none

end

/-- The value that a text writes. -/
def parse? (text : String) : Option Json :=
  let chars := text.toList
  match readValue? (2 * chars.length + 2) chars with
  | some (value, rest) => if (skipBlank rest).isEmpty then some value else none
  | none => none

end Json

end SchemaGraft
