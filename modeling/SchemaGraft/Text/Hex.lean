/-!
# Hexadecimal numbers

The digits with which escapes write a character by its number.
-/

set_option autoImplicit false

namespace SchemaGraft

namespace Text

/-- The characters that hexadecimal numbers are written with. -/
def isHexDigit (c : Char) : Bool :=
  c.isDigit || ('a' ≤ c && c ≤ 'f') || ('A' ≤ c && c ≤ 'F')

/-- The value of a hexadecimal digit. -/
def hexDigitValue (c : Char) : Nat :=
  if c.isDigit then c.toNat - '0'.toNat
  else if 'a' ≤ c ∧ c ≤ 'f' then c.toNat - 'a'.toNat + 10
  else c.toNat - 'A'.toNat + 10

/-- The number that hexadecimal digits write. -/
def hexValue (digits : List Char) : Nat :=
  digits.foldl (fun value digit => value * 16 + hexDigitValue digit) 0

/-- The digit of a value below sixteen; `ten` is the digit of ten. -/
def hexDigit (ten : Char) (value : Nat) : Char :=
  if value < 10 then Char.ofNat ('0'.toNat + value) else Char.ofNat (ten.toNat + (value - 10))

/-- A number below 65536 in four digits; `ten` is the digit of ten. -/
def fourHexDigits (ten : Char) (value : Nat) : List Char :=
  [hexDigit ten (value / 4096 % 16), hexDigit ten (value / 256 % 16),
    hexDigit ten (value / 16 % 16), hexDigit ten (value % 16)]

end Text

end SchemaGraft
