/-!
# What can be wrong with the text of a token

Text that is no token is rejected with a `LexicalProblem`. `message` words it, `isLocated` tells
the problems that are reported where the text begins from those that are reported at the beginning
of the file.
-/

set_option autoImplicit false

namespace SchemaGraft

/-- Why text was rejected before it became a token. -/
inductive LexicalProblem where
  | tokenLimitReached
  | unterminatedSpread
  | unexpectedCharacter (c : Char)
  | digitExpected (found : Char)
  | leadingZero
  | integerSuffix (found : Char)
  | floatCutShort
  | fractionalDigitExpected (found : Char)
  | exponentDigitExpected (found : Char)
  | exponentDigitOrSignExpected (found : Char)
  | floatSuffix (found : Char)
  | stringCutShort
  | unterminatedString
  | incompleteUnicodeEscape
  | invalidUnicodeEscape
  | surrogateEscape
  | unexpectedEscape
  | unexpectedLineEnd
  deriving DecidableEq

namespace LexicalProblem

/-- The sentence that reports a problem. -/
def message : LexicalProblem → String
  | tokenLimitReached => "token limit reached, aborting lexing"
  | unterminatedSpread => "Unterminated spread operator"
  | unexpectedCharacter c => "Unexpected character \"" ++ c.toString ++ "\""
  | digitExpected found => "Unexpected character `" ++ found.toString ++ "`"
  | leadingZero => "Numbers must not have non-significant leading zeroes"
  | integerSuffix found => "Unexpected character `" ++ found.toString ++ "` as integer suffix"
  | floatCutShort => "Unexpected EOF in float value"
  | fractionalDigitExpected found =>
    "Unexpected character `" ++ found.toString ++ "`, expected fractional digit"
  | exponentDigitExpected found =>
    "Unexpected character `" ++ found.toString ++ "`, expected exponent digit"
  | exponentDigitOrSignExpected found =>
    "Unexpected character `" ++ found.toString ++ "`, expected exponent digit or sign"
  | floatSuffix found => "Unexpected character `" ++ found.toString ++ "` as float suffix"
  | stringCutShort => "unexpected end of data while lexing string value"
  | unterminatedString => "unterminated string value"
  | incompleteUnicodeEscape => "incomplete unicode escape sequence"
  | invalidUnicodeEscape => "invalid unicode escape sequence"
  | surrogateEscape =>
    "surrogate code point is invalid in unicode escape sequence " ++
      "(paired surrogate not supported yet: " ++
      "https://github.com/apollographql/apollo-rs/issues/657)"
  | unexpectedEscape => "unexpected escaped character"
  | unexpectedLineEnd => "unexpected line terminator"

/-- Whether the problem is reported where the rejected text begins. -/
def isLocated : LexicalProblem → Bool
  | unterminatedSpread | unterminatedString | incompleteUnicodeEscape | invalidUnicodeEscape
  | surrogateEscape | unexpectedEscape | unexpectedLineEnd => true
  | _ => false

end LexicalProblem

end SchemaGraft
