import SchemaGraft.Token.Basic

/-!
# Numbers

A number is an optional minus sign, a zero or digits that do not begin with zero, then optionally
a point with digits and an exponent. A number must not run on into a name or another point.

The functions below follow the text after the first character of the number. `consumed` counts the
characters read since then.
-/

set_option autoImplicit false

namespace SchemaGraft

namespace Scanned

/-- How many digits a text begins with. -/
def digitCount (chars : List Char) : Nat := (chars.takeWhile Char.isDigit).length

/-- Whether a character must not follow a number. -/
def clashesWithNumber (c : Char) : Bool := c == '.' || isNameStart c

/-- The digits of an exponent, of which there is at least one. -/
def exponentDigits (consumed : Nat) (chars : List Char) : Scanned :=
  let consumed := consumed + digitCount chars
  match chars.dropWhile Char.isDigit with
  | [] => token .float consumed
  | c :: _ =>
    if clashesWithNumber c then problem (.floatSuffix c) (consumed + 1) else token .float consumed

/-- What follows the letter of an exponent. -/
def exponent (consumed : Nat) : List Char → Scanned
  | [] => problem .floatCutShort consumed
  | c :: rest =>
    if c == '+' || c == '-' then
      match rest with
      | [] => problem .floatCutShort (consumed + 1)
      | digit :: _ =>
        if digit.isDigit then exponentDigits (consumed + 1) rest
        else problem (.exponentDigitExpected digit) (consumed + 2)
    else if c.isDigit then exponentDigits consumed (c :: rest)
    else problem (.exponentDigitOrSignExpected c) (consumed + 1)

/-- Whether a character begins an exponent. -/
def startsExponent (c : Char) : Bool := c == 'e' || c == 'E'

/-- What follows the decimal point. -/
def fraction (consumed : Nat) : List Char → Scanned
  | [] => problem .floatCutShort consumed
  | c :: rest =>
    if !c.isDigit then problem (.fractionalDigitExpected c) (consumed + 1)
    else
      let consumed := consumed + digitCount (c :: rest)
      match (c :: rest).dropWhile Char.isDigit with
      | [] => token .float consumed
      | next :: after =>
        if startsExponent next then exponent (consumed + 1) after
        else if clashesWithNumber next then problem (.floatSuffix next) (consumed + 1)
        else token .float consumed

/-- What follows the integer part. -/
def afterInteger (isZero : Bool) (consumed : Nat) : List Char → Scanned
  | [] => token .int consumed
  | c :: rest =>
    if c == '.' then fraction (consumed + 1) rest
    else if startsExponent c then exponent (consumed + 1) rest
    else if isZero && c.isDigit then problem .leadingZero (consumed + 1)
    else if isNameStart c then problem (.integerSuffix c) (consumed + 1)
    else token .int consumed

/-- What follows the first digit of a number. -/
def afterFirstDigit (digit : Char) (consumed : Nat) (chars : List Char) : Scanned :=
  if digit == '0' then afterInteger true consumed chars
  else afterInteger false (consumed + digitCount chars) (chars.dropWhile Char.isDigit)

/-- What follows a minus sign. -/
def afterMinus : List Char → Scanned
  | [] => problem (.unexpectedCharacter '-') 0
  | c :: rest => if c.isDigit then afterFirstDigit c 1 rest else problem (.digitExpected c) 1

end Scanned

end SchemaGraft
