import SchemaGraft.DirectiveLocation
import SchemaGraft.Grammar.Value

/-!
# Definitions and extensions of types and directives

Each definition may begin with a description. All productions here begin at depth zero, so their
argument is the limit on depth itself.
-/

set_option autoImplicit false

namespace SchemaGraft

namespace Grammar

open State

/-! ## Parts of definitions -/

/-- Whether a definition of a member can begin at the current token. -/
def isAtMember : State → Bool := isAtEither .name .string

/-- Whether a type can begin at the current token. -/
def isAtType : State → Bool := isAtEither .name .leftBracket

/-- The value that is used where none is given. -/
def defaultValue (limit : Nat) : Production :=
  branch .defaultValue (sequence [take, value true limit false])

/-- The type of an argument, input field or variable, after its colon. -/
def inputType (limit : Nat) : Production :=
  choose isAtType
    (sequence [type limit, whenAt .equalsSign (defaultValue limit), directives true limit])
    (report .typeAfterColonExpected)

/-- The definition of an argument or input field. -/
def inputValueDefinition (limit : Nat) : Production :=
  branch .inputValueDefinition (sequence [
    description,
    name,
    choose (isAt .colon) (sequence [take, inputType limit]) (report .nameExpected)])

/-- The definitions of the arguments of a field or directive. -/
def argumentsDefinition (limit : Nat) : Production :=
  branch .argumentsDefinition (sequence [
    take,
    several isAtMember (inputValueDefinition limit) .argumentDefinitionExpected,
    close .parenthesis])

/-- The definition of a field. -/
def fieldDefinition (limit : Nat) : Production :=
  branch .fieldDefinition (sequence [
    description,
    name,
    whenAt .leftParenthesis (argumentsDefinition limit),
    choose (isAt .colon)
      (sequence [
        take,
        choose isAtType (sequence [type limit, directives true limit])
          (report .typeAfterColonExpected)])
      (report .typeExpected)])

/-- The definitions of the fields of a type. -/
def fieldsDefinition (limit : Nat) : Production :=
  branch .fieldsDefinition (sequence [
    take,
    several isAtMember (fieldDefinition limit) .fieldDefinitionExpected,
    close .brace])

/-- The definitions of the fields of an input object type. -/
def inputFieldsDefinition (limit : Nat) : Production :=
  branch .inputFieldsDefinition (sequence [
    take,
    several isAtMember (inputValueDefinition limit) .inputValueDefinitionExpected,
    close .brace])

/-- The definition of a value of an enum type. -/
def enumValueDefinition (limit : Nat) : Production :=
  branch .enumValueDefinition (sequence [description, enumValue, directives true limit])

/-- The definitions of the values of an enum type. -/
def enumValuesDefinition (limit : Nat) : Production :=
  branch .enumValuesDefinition (sequence [
    take,
    several isAtMember (enumValueDefinition limit) .enumValueDefinitionExpected,
    close .brace])

/-- A reference to a type in a list of them. -/
def listedType (problem : GrammarProblem) : Production :=
  choose (isAt .name) namedType (report problem)

/-- The interfaces that a type implements. -/
def implementsInterfaces : Production :=
  branch .implementsInterfaces
    (sequence [take, separated .ampersand (listedType .interfaceNameExpected)])

/-- Whether the word that begins a list of interfaces is at hand. -/
def isAtImplements : State → Bool := isAtText "implements"

/-- The members of a union type. -/
def unionMembers : Production :=
  branch .unionMembers (sequence [take, separated .verticalBar (listedType .unionMemberExpected)])

/-! ## Definitions of types -/

/-- The definition of a scalar type. -/
def scalarDefinition (limit : Nat) : Production :=
  branch .scalarDefinition (sequence [
    description, keyword "scalar", name, directives true limit])

/-- The definition of an object type. -/
def objectDefinition (limit : Nat) : Production :=
  branch .objectDefinition (sequence [
    description,
    keyword "type",
    nameOr .objectNameExpected,
    whenAt .name (choose isAtImplements implementsInterfaces (report .unexpectedName)),
    directives true limit,
    whenAt .leftBrace (fieldsDefinition limit)])

/-- The definition of an interface type. -/
def interfaceDefinition (limit : Nat) : Production :=
  branch .interfaceDefinition (sequence [
    description,
    keyword "interface",
    name,
    whenever isAtImplements implementsInterfaces,
    directives true limit,
    whenAt .leftBrace (fieldsDefinition limit)])

/-- The definition of a union type. -/
def unionDefinition (limit : Nat) : Production :=
  branch .unionDefinition (sequence [
    description,
    keyword "union",
    name,
    directives true limit,
    whenAt .equalsSign unionMembers])

/-- The definition of an enum type. -/
def enumDefinition (limit : Nat) : Production :=
  branch .enumDefinition (sequence [
    description,
    keyword "enum",
    name,
    directives true limit,
    whenAt .leftBrace (enumValuesDefinition limit)])

/-- The definition of an input object type. -/
def inputObjectDefinition (limit : Nat) : Production :=
  branch .inputObjectDefinition (sequence [
    description,
    keyword "input",
    name,
    directives true limit,
    whenAt .leftBrace (inputFieldsDefinition limit)])

/-! ## Definitions of directives -/

/-- Whether the current token names a place where a directive may be applied. -/
def isAtDirectiveLocation (state : State) : Bool :=
  state.current.any fun token => (DirectiveLocation.ofText? token.text).isSome

/-- A place where a directive may be applied. -/
def directiveLocation : Production :=
  choose (isAt .name)
    (choose isAtDirectiveLocation (branch .directiveLocation take)
      (report .validDirectiveLocationExpected))
    (report .directiveLocationExpected)

/-- The definition of a directive. -/
def directiveDefinition (limit : Nat) : Production :=
  branch .directiveDefinition (sequence [
    description,
    keyword "directive",
    choose (isAt .atSign) take (report .atSignExpected),
    name,
    whenAt .leftParenthesis (argumentsDefinition limit),
    whenever (isAtText "repeatable") (bump .repeatable),
    choose (isAtText "on") take (report .directiveLocationsExpected),
    choose (isAtEither .name .verticalBar)
      (branch .directiveLocations (separated .verticalBar directiveLocation))
      (report .validDirectiveLocationExpected)])

/-! ## The schema definition -/

/-- The kind of operation that a root type is for. -/
def operationType : Production :=
  whenever (fun state => state.current.isSome)
    (branch .operationType
      (choose
        (fun state => state.isAtText "query" || state.isAtText "subscription" ||
          state.isAtText "mutation")
        take (reject .operationKeywordExpected)))

/-- A root operation with its type. -/
def rootOperation : Production :=
  branch .rootOperation (sequence [
    operationType,
    choose (isAt .colon) (sequence [take, namedType]) (report .rootOperationTypeExpected)])

/-- The definition of a schema. -/
def schemaDefinition (limit : Nat) : Production :=
  branch .schemaDefinition (sequence [
    description,
    keyword "schema",
    directives true limit,
    whenAt .leftBrace (sequence [
      take,
      several (isAt .name) rootOperation .rootOperationExpected,
      close .brace])])

/-! ## Extensions -/

/-- The extension of a schema. -/
def schemaExtension (limit : Nat) : Production :=
  branch .schemaExtension fun state =>
    let state := take (take state)
    let applied := state.isAt .atSign
    let state := directives true limit state
    if state.isAt .leftBrace then
      let state := take state
      let listed := state.isAt .name
      let state := close .brace (repeatWhile (isAt .name) rootOperation state)
      if applied || listed then state else state.report .schemaExtensionContentExpected
    else if applied then state
    else state.report .schemaExtensionContentExpected

/-- The extension of a type: the two words that begin it, the name, and at least one of some
parts. -/
def typeExtension (kind : TreeKind) (problem : GrammarProblem)
    (parts : List ((State → Bool) × Production)) : Production :=
  branch kind (sequence [take, take, name, someOf problem parts])

/-- Directive applications as a part of an extension. -/
def addedDirectives (limit : Nat) : (State → Bool) × Production :=
  (isAt .atSign, directives true limit)

/-- Interfaces as a part of an extension. -/
def addedInterfaces : (State → Bool) × Production := (isAtImplements, implementsInterfaces)

/-- The extension that begins with a word after the word that begins all of them. -/
def extension? (limit : Nat) : String → Option Production
  | "schema" => some (schemaExtension limit)
  | "scalar" =>
    some (typeExtension .scalarExtension .scalarExtensionContentExpected [addedDirectives limit])
  | "type" =>
    some (typeExtension .objectExtension .objectExtensionContentExpected
      [addedInterfaces, addedDirectives limit, (isAt .leftBrace, fieldsDefinition limit)])
  | "interface" =>
    some (typeExtension .interfaceExtension .interfaceExtensionContentExpected
      [addedInterfaces, addedDirectives limit, (isAt .leftBrace, fieldsDefinition limit)])
  | "union" =>
    some (typeExtension .unionExtension .unionExtensionContentExpected
      [addedDirectives limit, (isAt .equalsSign, unionMembers)])
  | "enum" =>
    some (typeExtension .enumExtension .enumExtensionContentExpected
      [addedDirectives limit, (isAt .leftBrace, enumValuesDefinition limit)])
  | "input" =>
    some (typeExtension .inputObjectExtension .inputObjectExtensionContentExpected
      [addedDirectives limit, (isAt .leftBrace, inputFieldsDefinition limit)])
  | _ => none

/-- An extension of any kind. -/
def extension (limit : Nat) : Production := fun state =>
  match state.following?.bind fun token => extension? limit token.text with
  | some production => production state
  | none => state.reject .invalidExtension

end Grammar

end SchemaGraft
