import SchemaGraft.Grammar.Executable

/-!
# Whole documents

A document is a sequence of definitions. The word after an optional description decides which
production reads a definition. Tokens that begin no definition are taken into the tree as rejected,
so that reading comes to the end of every text.
-/

set_option autoImplicit false

namespace SchemaGraft

namespace Grammar

open State

/-- The production for the definition that a word, or an opening brace, begins. -/
def definition? (limit : Nat) : String → Option Production
  | "directive" => some (directiveDefinition limit)
  | "enum" => some (enumDefinition limit)
  | "extend" => some (extension limit)
  | "fragment" => some (fragmentDefinition limit)
  | "input" => some (inputObjectDefinition limit)
  | "interface" => some (interfaceDefinition limit)
  | "type" => some (objectDefinition limit)
  | "query" => some (operationDefinition limit)
  | "mutation" => some (operationDefinition limit)
  | "subscription" => some (operationDefinition limit)
  | "\x7b" => some (operationDefinition limit)
  | "scalar" => some (scalarDefinition limit)
  | "schema" => some (schemaDefinition limit)
  | "union" => some (unionDefinition limit)
  | _ => none

/-- The definition that a word begins. -/
def definition (limit : Nat) (word : String) : Production :=
  (definition? limit word).getD (reject .definitionExpected)

/-- A definition, or a token that begins none. -/
def documentItem (limit : Nat) : Production := fun state =>
  match state.current with
  | none => state
  | some token =>
    match token.kind with
    | .string =>
      match state.following? with
      | some following => definition limit following.text state
      | none => state.reject .definitionAfterDescriptionExpected
    | .name | .leftBrace => definition limit token.text state
    | _ => state.reject .documentItemExpected

/-- Whether more of the document follows. -/
def isBeforeEnd (state : State) : Bool := state.current.isSome && !state.isAt .endOfInput

/-- A document. -/
def document (limit : Nat) : Production :=
  branch .document (sequence [repeatWhile isBeforeEnd (documentItem limit), flush])

end Grammar

/-- The tree of a text with the mistakes in it. -/
structure SyntaxTree where
  tree : Tree
  /-- The mistakes in the order in which they were met. -/
  faults : List SyntaxFault
  /-- The number of lexemes that were read. -/
  tokensReached : Nat
  /-- The greatest depth that was tried. -/
  depthReached : Nat

/-- How much of a text is read. -/
structure ReadingLimits where
  /-- How deep values, types and selection sets may nest. -/
  depth : Nat := 500
  /-- How many lexemes may be read. -/
  tokens : Option Nat := none

/-- The syntax tree of a text. -/
def SyntaxTree.ofText (limits : ReadingLimits) (text : String) : SyntaxTree :=
  let lexemes := lexemes limits.tokens text
  let state := Grammar.document limits.depth (.start limits.depth lexemes)
  { tree := state.children.headD (.branch .document 0 0 [])
    faults := state.faults.reverse
    tokensReached := lexemes.length
    depthReached := state.deepest }

end SchemaGraft
