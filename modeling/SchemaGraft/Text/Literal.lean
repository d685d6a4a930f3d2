import SchemaGraft.Text.Quoted
import SchemaGraft.Text.Block

/-!
# String literals

A string is written in one of two forms, quoted or as a block. `stringValue` reads both.
-/

set_option autoImplicit false

namespace SchemaGraft

namespace Text

/-- The value of a string token. -/
def stringValue (token : String) : String :=
  let chars := token.toList
  String.ofList
    (if isBlock chars then blockValue (inner 3 chars) else unescape (inner 1 chars))

end Text

end SchemaGraft
