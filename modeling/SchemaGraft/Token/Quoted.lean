import SchemaGraft.Token.Basic
import SchemaGraft.Text.Hex

/-!
# String tokens

A string is written between quotes on one line, with escapes, or between triple quotes. Both forms
are read to their end even if something in them is wrong, so that reading can go on behind them; of
several problems in one string the last is reported.

`blockLength?` and `quotedLength?` count the characters up to and including the closing quotes.
They answer nothing if the text ends first.
-/

set_option autoImplicit false

namespace SchemaGraft

namespace Scanned

/-! ## Block strings -/

/-- The characters from inside a block string up to its end. After a backslash, and any more of
them, one character is passed over, or up to three quotes. -/
def blockLength? : (escaping : Bool) → List Char → Option Nat
  | _, [] => none
  | false, '"' :: '"' :: '"' :: _ => some 3
  | false, '"' :: '"' :: rest => (blockLength? false rest).map (· + 2)
  | false, c :: rest => (blockLength? (c == '\\') rest).map (· + 1)
  | true, '"' :: '"' :: '"' :: rest => (blockLength? false rest).map (· + 3)
  | true, '"' :: '"' :: rest => (blockLength? false rest).map (· + 2)
  | true, c :: rest => (blockLength? (c == '\\') rest).map (· + 1)

/-! ## Quoted strings -/

/-- What the next character of a quoted string is part of. -/
inductive QuotedMode where
  | plain
  /-- The character after a backslash. -/
  | escape
  /-- A digit of an escape by number; `read` holds the digits before, latest first. -/
  | unicode (read : List Char)
  deriving DecidableEq

/-- The characters after a backslash that make an escape of their own. -/
def isSimpleEscape (c : Char) : Bool :=
  c == '"' || c == '\\' || c == '/' || c == 'b' || c == 'f' || c == 'n' || c == 'r' || c == 't'

/-- The characters from inside a quoted string up to its end, and the last problem on the way.
A line end as the very first character of the string is let pass. -/
def quotedLength? (isFirst : Bool) (mode : QuotedMode) (found : Option LexicalProblem) :
    List Char → Option (Nat × Option LexicalProblem)
  | [] => none
  | c :: rest =>
    match mode with
    | .plain =>
      if c == '"' then some (1, found)
      else
        let mode := if c == '\\' then .escape else .plain
        let found := if endsComment c && !isFirst then some .unexpectedLineEnd else found
        (quotedLength? false mode found rest).map fun (count, found) => (count + 1, found)
    | .escape =>
      let mode := if c == 'u' then .unicode [] else .plain
      let found := if c == 'u' || isSimpleEscape c then found else some .unexpectedEscape
      (quotedLength? false mode found rest).map fun (count, found) => (count + 1, found)
    | .unicode read =>
      if c == '"' then some (1, some .incompleteUnicodeEscape)
      else
        let digits := c :: read
        let (mode, found) :=
          if !Text.isHexDigit c then (QuotedMode.plain, some .invalidUnicodeEscape)
          else if digits.length < 4 then (.unicode digits, found)
          else
            let value := Text.hexValue digits.reverse
            (.plain, if 0xD800 ≤ value ∧ value ≤ 0xDFFF then some .surrogateEscape else found)
        (quotedLength? false mode found rest).map fun (count, found) => (count + 1, found)

/-- What follows an opening quote. -/
def afterQuote : List Char → Scanned
  | [] => problem .stringCutShort 0
  | '"' :: '"' :: block =>
    match blockLength? false block with
    | some length => token .string (length + 2)
    | none => problem .unterminatedString (block.length + 2)
  | '"' :: _ => token .string 1
  | chars =>
    match quotedLength? true .plain none chars with
    | some (length, none) => token .string length
    | some (length, some found) => problem found length
    | none => problem .unterminatedString chars.length

end Scanned

end SchemaGraft
