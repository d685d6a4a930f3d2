import SchemaGraft.Document.OfTree
import SchemaGraft.Event
import SchemaGraft.Report

/-!
# Reading documents

Reading a text always gives a document. If the text has mistakes, the document lacks the
definitions that could not be read, and the mistakes are listed as `SyntaxError`s.
-/

set_option autoImplicit false

namespace SchemaGraft

/-- A mistake in a document with its place. -/
structure SyntaxError where
  problem : SyntaxProblem
  location : Location
  deriving DecidableEq

namespace SyntaxError

/-- The error that a fault is in a file. -/
def ofFault (file : FileId) (fault : SyntaxFault) : SyntaxError :=
  ⟨fault.problem, ⟨file, fault.start, fault.start + fault.text.utf8ByteSize⟩⟩

/-- The sentence for an error. -/
def message (error : SyntaxError) : String := error.problem.message

/-- Whether the error is that a limit was reached. -/
def isLimit (error : SyntaxError) : Bool := error.problem.isLimit

/-- What there is to say about an error. -/
def diagnosis (error : SyntaxError) : Diagnosis :=
  if error.isLimit then
    { location := some error.location
      title := "parser limit reached: " ++ error.message
      labels := [⟨some error.location, "limit reached here"⟩]
      advice := none }
  else
    { location := some error.location
      title := "syntax error: " ++ error.message
      labels := [⟨some error.location, error.message⟩]
      advice := none }

end SyntaxError

/-- What became of a text. -/
structure ParsedDocument where
  document : Document
  /-- The mistakes, none if the document is complete. -/
  errors : List SyntaxError
  /-- How many lexemes were read. -/
  tokensReached : Nat
  /-- The greatest depth that was tried. -/
  depthReached : Nat

namespace ParsedDocument

/-- Whether the text had no mistakes. -/
def isValid (parsed : ParsedDocument) : Bool := parsed.errors.isEmpty

/-- The event that reading a text is. -/
def event (parsed : ParsedDocument) : Event :=
  if parsed.isValid then .parsedDocument parsed.document.definitions.length
  else .foundSyntaxErrors parsed.errors.length

end ParsedDocument

/-- Reads a text as the file of a number of its own. -/
def Document.parse (limits : ReadingLimits) (file : FileId) (source : SourceFile) :
    ParsedDocument :=
  let read := SyntaxTree.ofText limits source.text
  { document := ⟨SourceMap.single file source, read.tree.definitions file⟩
    errors := read.faults.map (.ofFault file)
    tokensReached := read.tokensReached
    depthReached := read.depthReached }

end SchemaGraft
