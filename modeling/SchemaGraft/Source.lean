import SchemaGraft.OrderedMap

/-!
# Source files and places in them

Every definition that was read from text remembers the file and the range of bytes it came from.
Files are told apart by a `FileId`; the path of a file is only shown to people and two files may
have the same one. Schemas and documents carry a `SourceMap`, the files that their locations refer
to, so that a problem can be shown where it lies.
-/

set_option autoImplicit false

namespace SchemaGraft

/-- Tells source files apart: the file of the built-in definitions, and one number for every other
text that was read. -/
inductive FileId where
  | builtIn
  | document (serial : Nat)
  deriving DecidableEq

/-- A range of bytes of a source file, from `start` up to but excluding `stop`. -/
structure Location where
  file : FileId
  start : Nat
  stop : Nat
  deriving DecidableEq

/-- A text that was read, with the path that names it in reports. -/
structure SourceFile where
  path : String
  text : String
  deriving DecidableEq

/-- The files that a document or a schema was read from, in the order in which they were added. -/
abbrev SourceMap := OrderedMap FileId SourceFile

/-- The source map of a single file. -/
def SourceMap.single (file : FileId) (source : SourceFile) : SourceMap :=
  OrderedMap.empty.insert file source

end SchemaGraft
