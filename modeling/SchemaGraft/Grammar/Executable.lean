import SchemaGraft.Grammar.Definition

/-!
# Operations and fragments

A schema has no use for operations and fragments, but a document may contain them, and mistakes in
them are mistakes of the document.
-/

set_option autoImplicit false

namespace SchemaGraft

namespace Grammar

open State

/-! ## Selections -/

/-- The name of a fragment. -/
def fragmentName : Production :=
  branch .fragmentName
    (choose (isAt .name)
      (choose (isAtText "on") (report .fragmentNamedOn) name)
      (report .fragmentNameExpected))

/-- The type that a fragment is for. -/
def typeCondition : Production :=
  branch .typeCondition
    (choose (isAt .name)
      (sequence [
        choose (isAtText "on") take (report .onExpected),
        choose (isAt .name) namedType (report .typeConditionNameExpected)])
      (report .typeConditionExpected))

/-- Whether a colon follows the current token. -/
def isBeforeColon (state : State) : Bool := state.following?.any (·.kind == .colon)

/-- The selection of a field, given how to read the selections below it. -/
def fieldSelection (left : Nat) (selections : Production) : Production :=
  branch .fieldSelection (sequence [
    whenever isBeforeColon (branch .alias (sequence [name, take])),
    name,
    whenAt .leftParenthesis (arguments false left),
    directives false left,
    whenAt .leftBrace selections])

/-- A fragment by its name. -/
def fragmentSpread (left : Nat) : Production :=
  branch .fragmentSpread (sequence [
    take,
    choose (isAt .name) fragmentName (report .nameExpected),
    directives false left])

/-- A fragment in place, given how to read its selections. -/
def inlineFragment (left : Nat) (selections : Production) : Production :=
  branch .inlineFragment (sequence [
    take,
    whenAt .name typeCondition,
    directives false left,
    choose (isAt .leftBrace) selections (report .inlineSelectionSetExpected)])

/-- A selection that begins with three points. -/
def spreadSelection (left : Nat) (selections : Production) : Production := fun state =>
  match state.following? with
  | none => state.reject .fragmentOrSpreadExpected
  | some token =>
    if token.kind == .name && token.text != "on" then fragmentSpread left state
    else if token.kind == .name || token.kind == .atSign || token.kind == .leftBrace then
      inlineFragment left selections state
    else take (state.report .fragmentOrSpreadExpected)

/-- The selections inside a selection set. -/
def selections (left : Nat) (selectionSet : Production) : Production :=
  several (isAtEither .spread .name)
    (choose (isAt .spread) (spreadSelection left selectionSet) (fieldSelection left selectionSet))
    .selectionExpected

/-- A selection set, given how to read what is inside. -/
def selectionSetWith (left : Nat) (content : Option Production) : Production :=
  branch .selectionSet
    (match content with
      | none => sequence [take, descend left, reportDepth]
      | some content => sequence [take, descend left, content, close .brace])

/-- A selection set in which selection sets may nest for a number of levels. -/
def selectionSet : (left : Nat) → Production
  | 0 => selectionSetWith 0 none
  | left + 1 => selectionSetWith (left + 1) (some (selections left (selectionSet left)))

/-! ## Operations and fragments -/

/-- The definition of a variable of an operation. -/
def variableDefinition (limit : Nat) : Production :=
  branch .variableDefinition (sequence [
    variableReference,
    choose (isAt .colon) (sequence [take, inputType limit]) (report .nameExpected)])

/-- The definitions of the variables of an operation. -/
def variableDefinitions (limit : Nat) : Production :=
  branch .variableDefinitions (sequence [
    take,
    several (isAt .dollar) (variableDefinition limit) .variableDefinitionExpected,
    close .parenthesis])

/-- An operation. -/
def operationDefinition (limit : Nat) : Production := fun state =>
  match state.kind? with
  | some .name =>
    branch .operationDefinition
      (sequence [
        operationType,
        whenAt .name name,
        whenAt .leftParenthesis (variableDefinitions limit),
        directives false limit,
        choose (isAt .leftBrace) (selectionSet limit) (reject .operationSelectionSetExpected)])
      state
  | some .leftBrace => branch .operationDefinition (selectionSet limit) state
  | _ => state.reject .operationExpected

/-- A fragment. -/
def fragmentDefinition (limit : Nat) : Production :=
  branch .fragmentDefinition (sequence [
    take,
    fragmentName,
    typeCondition,
    directives false limit,
    choose (isAt .leftBrace) (selectionSet limit) (report .operationSelectionSetExpected)])

end Grammar

end SchemaGraft
