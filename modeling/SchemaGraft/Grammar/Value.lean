import SchemaGraft.Grammar.State

/-!
# Names, values, types and directives

The productions that occur all over the grammar. Values and types nest, and how deep they may do so
is bounded: the argument `left` of their productions is the number of levels that are still allowed.
A production for what lies one level further down is given to them as an argument, or none if that
level is beyond the limit.
-/

set_option autoImplicit false

namespace SchemaGraft

namespace Grammar

open State

/-! ## Names -/

/-- A name. -/
def name : Production :=
  choose (isAt .name) (branch .name (bump .identifier)) (report .nameExpected)

/-- A name, with a problem of one's own if it is missing. -/
def nameOr (problem : GrammarProblem) : Production :=
  choose (isAt .name) name (report problem)

/-- A reference to a type by its bare name. -/
def namedType : Production := whenAt .name (branch .namedType name)

/-- A variable with its dollar sign. -/
def variableReference : Production := branch .variableReference (sequence [take, name])

/-- A word of the grammar, where it is the current token. -/
def keyword (word : String) : Production := whenever (isAtText word) take

/-- A description. -/
def description : Production :=
  whenAt .string (branch .description (branch .stringValue take))

/-! ## Values -/

/-- Refuses the current token, or only notes a problem about it. -/
def refuse (rejecting : Bool) (problem : GrammarProblem) : Production :=
  if rejecting then reject problem else report problem

/-- Whether the current token is one of the words that are values of their own. -/
def isAtReserved (state : State) : Bool :=
  state.isAtText "true" || state.isAtText "false" || state.isAtText "null"

/-- An enum value. -/
def enumValue : Production :=
  branch .enumValue
    (choose (isAt .name)
      (sequence [whenever isAtReserved (report .reservedEnumValue), name])
      (report .enumValueExpected))

/-- Whether the current token can begin an item of a list. -/
def isAtItem (state : State) : Bool :=
  state.current.isSome && !state.isAtEither .rightBracket .endOfInput

/-- A list of values. -/
def listValue (left : Nat) (item : Option Production) : Production :=
  branch .listValue (sequence [
    take,
    match item with
    | none => whenever isAtItem (sequence [descend left, reportDepth])
    | some item => repeatWhile isAtItem (sequence [descend left, item]),
    whenAt .rightBracket take])

/-- A field of an object value. -/
def objectField (left : Nat) (value : Option Production) : Production :=
  branch .objectField (sequence [
    name,
    whenAt .colon (sequence [take, descend left, value.getD reportDepth])])

/-- An object value. -/
def objectValue (left : Nat) (value : Option Production) : Production :=
  branch .objectValue (sequence [
    take, repeatWhile (isAt .name) (objectField left value), close .brace])

/-- A value, given how to read one that lies a level deeper. A constant has no variables. Text that
is no value is taken away if `rejecting` is set. -/
def valueWith (constant : Bool) (left : Nat) (deeper : Option Production) (rejecting : Bool) :
    Production := fun state =>
  match state.kind? with
  | some .dollar =>
    sequence [if constant then refuse rejecting .variableInConstant else id, variableReference]
      state
  | some .int => branch .intValue take state
  | some .float => branch .floatValue take state
  | some .string => branch .stringValue take state
  | some .name =>
    if state.isAtText "true" || state.isAtText "false" then branch .booleanValue take state
    else if state.isAtText "null" then branch .nullValue take state
    else enumValue state
  | some .leftBracket => listValue left deeper state
  | some .leftBrace => objectValue left deeper state
  | _ => refuse rejecting .valueExpected state

/-- A value in which values may nest for a number of levels. -/
def value (constant : Bool) : (left : Nat) → (rejecting : Bool) → Production
  | 0, rejecting => valueWith constant 0 none rejecting
  | left + 1, rejecting =>
    valueWith constant (left + 1) (some (value constant left true)) rejecting

/-! ## Types -/

/-- Makes what a production adds to the tree the content of a non-null type, if an exclamation mark
follows it. -/
def perhapsNonNull (part : Production) : Production := fun state =>
  let opened := state.flush
  let read := (part { opened with children := [] }).skip
  if read.isAt .exclamation then
    let closed := read.eat .part
    { closed with
      children :=
        .branch .nonNullType opened.length closed.length closed.children.reverse ::
          opened.children }.skip
  else { read with children := read.children ++ opened.children }.skip

/-- A type, given how to read the item type of a list. -/
def typeWith (left : Nat) (item : Option Production) : Production := fun state =>
  if state.isAt .leftBracket then
    match item with
    | none => branch .listType (sequence [take, descend left, reportDepth]) state
    | some item =>
      perhapsNonNull (branch .listType (sequence [take, descend left, item, close .bracket])) state
  else if state.isAt .name then
    perhapsNonNull (branch .namedType (branch .name (eat .identifier))) state
  else state

/-- The item type of a list. Any other token is taken away without a place in the tree. -/
def itemType (type : Production) : Production := fun state =>
  if state.isAtEither .leftBracket .name then type state
  else
    let state := state.flush
    if state.current.isSome then (state.report .itemTypeExpected).next else state

/-- A type in which lists may nest for a number of levels. -/
def type : (left : Nat) → Production
  | 0 => typeWith 0 none
  | left + 1 => typeWith (left + 1) (some (itemType (type left)))

/-! ## Directive applications -/

/-- An argument that is given. -/
def argument (constant : Bool) (left : Nat) : Production :=
  branch .argument (sequence [
    name, whenAt .colon (sequence [take, value constant left false])])

/-- The arguments that are given. -/
def arguments (constant : Bool) (left : Nat) : Production :=
  branch .arguments (sequence [
    take,
    several (isAt .name) (argument constant left) .argumentExpected,
    close .parenthesis])

/-- The application of a directive. -/
def directive (constant : Bool) (left : Nat) : Production :=
  branch .directive (sequence [
    take, name, whenAt .leftParenthesis (arguments constant left)])

/-- The applications of directives, where there are any. -/
def directives (constant : Bool) (left : Nat) : Production :=
  whenAt .atSign
    (branch .directives (repeatWhile (isAt .atSign) (directive constant left)))

end Grammar

end SchemaGraft
