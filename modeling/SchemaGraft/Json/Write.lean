import SchemaGraft.Json.Basic
import SchemaGraft.Text.Hex

/-!
# Writing JSON

Values are written without spaces. In a string only the quote, the backslash, the control
characters below U+0020 and the line breaks U+0085, U+2028 and U+2029 are escaped; all else stands
as it is.

Every writer takes the text written so far and adds to its end.
-/

set_option autoImplicit false

namespace SchemaGraft

namespace Json

/-- The escape of a character by its number, in four digits. -/
def writeNumberedEscape (out : String) (c : Char) : String :=
  (Text.fourHexDigits 'a' c.toNat).foldl String.push (out ++ "\\u")

/-- A character of a string. -/
def writeChar (out : String) (c : Char) : String :=
  if c == '"' then out ++ "\\\""
  else if c == '\\' then out ++ "\\\\"
  else if c == '\u0008' then out ++ "\\b"
  else if c == '\u000c' then out ++ "\\f"
  else if c == '\n' then out ++ "\\n"
  else if c == '\r' then out ++ "\\r"
  else if c == '\t' then out ++ "\\t"
  else if c.toNat < 32 || c == '\u0085' || c == '\u2028' || c == '\u2029' then
    writeNumberedEscape out c
  else out.push c

/-- A string in quotes. -/
def writeString (out text : String) : String :=
  (text.toList.foldl writeChar (out.push '"')).push '"'

mutual

/-- A value. -/
def writeValue (out : String) : Json → String
  | .null => out ++ "null"
  | .bool true => out ++ "true"
  | .bool false => out ++ "false"
  | .number value => out ++ value.print
  | .string text => writeString out text
  | .array [] => out ++ "[]"
  | .array (item :: rest) => (writeItems (writeValue (out.push '[') item) rest).push ']'
  | .object [] => out ++ "\x7b\x7d"
  | .object ((name, value) :: rest) =>
    (writeFields (writeValue ((writeString (out ++ "\x7b") name).push ':') value) rest) ++ "\x7d"

/-- The items after the first. -/
def writeItems (out : String) : List Json → String
  | [] => out
  | item :: rest => writeItems (writeValue (out.push ',') item) rest

/-- The fields after the first. -/
def writeFields (out : String) : List (String × Json) → String
  | [] => out
  | (name, value) :: rest =>
    writeFields (writeValue ((writeString (out.push ',') name).push ':') value) rest

end

/-- The text of a value. -/
def render (value : Json) : String := writeValue "" value

end Json

end SchemaGraft
