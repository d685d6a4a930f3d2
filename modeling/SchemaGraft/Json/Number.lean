/-!
# Numbers in JSON

A number keeps the digits that it was written with. It stands for an integer if it is written
without fraction and exponent and fits into 64 bits, with a sign or without; otherwise, and also if
it is a zero with a minus sign, it stands for the nearest binary number of 64 bits with a floating
point.

Two numbers are equal if they stand for the same integer or for the same floating-point number. An
integer and a floating-point number are never equal, and the sign of zero does not count.

The nearest floating-point number is found by exact arithmetic: `nearestBinary` rounds a fraction to
53 binary digits, and a half to the even neighbour.
-/

set_option autoImplicit false

namespace SchemaGraft

/-! ## Rounding -/

/-- The integer nearest to a fraction; a half goes to the even neighbour. -/
def roundHalfEven (numerator denominator : Nat) : Nat :=
  let quotient := numerator / denominator
  let remainder := numerator % denominator
  if 2 * remainder < denominator then quotient
  else if denominator < 2 * remainder then quotient + 1
  else quotient + quotient % 2

/-- A binary number with a floating point: `mantissa` times two to the power of `exponent`. -/
structure Binary where
  mantissa : Int
  exponent : Int
  deriving DecidableEq

namespace Binary

/-- The least exponent. -/
def minExponent : Int := -1074

/-- The exponent of the greatest power of two that is not above a positive fraction. -/
def floorLog (numerator denominator : Nat) : Int :=
  let guess : Int := (numerator.log2 : Int) - (denominator.log2 : Int)
  if denominator * Nat.pow 2 guess.toNat ≤ numerator * Nat.pow 2 (-guess).toNat then guess
  else guess - 1

/-- The binary number nearest to a fraction. Its mantissa has 53 digits, or fewer at the least
exponent. -/
def nearest (numerator denominator : Nat) : Binary :=
  let exponent :=
    if numerator = 0 then minExponent else max minExponent (floorLog numerator denominator - 52)
  let mantissa :=
    roundHalfEven (numerator * Nat.pow 2 (-exponent).toNat) (denominator * Nat.pow 2 exponent.toNat)
  if mantissa = Nat.pow 2 53 then ⟨Nat.pow 2 52, exponent + 1⟩ else ⟨mantissa, exponent⟩

/-- A binary number with the other sign. -/
def negate (binary : Binary) : Binary := ⟨-binary.mantissa, binary.exponent⟩

end Binary

/-! ## Reading digits -/

/-- The number that decimal digits write. -/
def decimalValue (digits : List Char) : Nat :=
  digits.foldl (fun value digit => value * 10 + (digit.toNat - '0'.toNat)) 0

/-- A number taken apart into what it is written with. -/
structure Numeral where
  negative : Bool
  /-- The digits before the point. -/
  whole : List Char
  /-- The digits after the point, if there is one. -/
  fraction : Option (List Char)
  exponent : Option Int
  deriving DecidableEq

namespace Numeral

/-- The exponent that a sign and digits write. -/
def readExponent : List Char → Int
  | '-' :: digits => -(decimalValue digits : Int)
  | '+' :: digits => decimalValue digits
  | digits => decimalValue digits

/-- Takes a number apart. -/
def ofChars (chars : List Char) : Numeral :=
  let negative := chars.head? == some '-'
  let unsigned := if negative then chars.drop 1 else chars
  let whole := unsigned.takeWhile Char.isDigit
  let (fraction, rest) : Option (List Char) × List Char :=
    match unsigned.dropWhile Char.isDigit with
    | '.' :: rest => (some (rest.takeWhile Char.isDigit), rest.dropWhile Char.isDigit)
    | rest => (none, rest)
  let exponent :=
    match rest with
    | [] => none
    | _ :: digits => some (readExponent digits)
  ⟨negative, whole, fraction, exponent⟩

/-- Whether a number is written without fraction and exponent. -/
def isWhole (numeral : Numeral) : Bool := numeral.fraction.isNone && numeral.exponent.isNone

/-- The integer of 64 bits that a number stands for. -/
def integer? (numeral : Numeral) : Option Int :=
  let magnitude := decimalValue numeral.whole
  if !numeral.isWhole then none
  else if numeral.negative then
    if 0 < magnitude ∧ magnitude ≤ Nat.pow 2 63 then some (-(magnitude : Int)) else none
  else if magnitude < Nat.pow 2 64 then some magnitude
  else none

/-- The floating-point number nearest to a number. Exponents that lead out of the range of
floating-point numbers in any case are cut off. -/
def binary (numeral : Numeral) : Binary :=
  let fraction := numeral.fraction.getD []
  let digits := numeral.whole ++ fraction
  let bound : Int := digits.length + 400
  let exponent := max (-bound) (min bound (numeral.exponent.getD 0 - fraction.length))
  let magnitude :=
    Binary.nearest (decimalValue digits * Nat.pow 10 exponent.toNat) (Nat.pow 10 (-exponent).toNat)
  if numeral.negative then magnitude.negate else magnitude

end Numeral

/-! ## Numbers -/

/-- A number, as written. -/
structure Number where
  digits : String
  deriving DecidableEq

/-- What a number stands for. -/
inductive NumberValue where
  | integer (value : Int)
  | binary (value : Binary)
  deriving DecidableEq

namespace Number

/-- A number that counts something. -/
def count (n : Nat) : Number := ⟨toString n⟩

/-- A number taken apart into what it is written with. -/
def numeral (number : Number) : Numeral := .ofChars number.digits.toList

/-- What a number stands for. -/
def value (number : Number) : NumberValue :=
  match number.numeral.integer? with
  | some value => .integer value
  | none => .binary number.numeral.binary

/-- Numbers are equal if they stand for the same. -/
instance : BEq Number := ⟨fun left right => left.value == right.value⟩

/-- The number that counts something. -/
def count? (number : Number) : Option Nat :=
  match number.value with
  | .integer (.ofNat n) => some n
  | _ => none

/-- The text of a number: its digits, unless they write an integer that only a floating-point number
can stand for. -/
def print (number : Number) : String :=
  match number.value with
  | .binary value =>
    if number.numeral.isWhole then
      (if number.numeral.negative then "-" else "") ++
        toString (value.mantissa.natAbs * Nat.pow 2 value.exponent.toNat) ++ ".0"
    else number.digits
  | .integer _ => number.digits

end Number

end SchemaGraft
