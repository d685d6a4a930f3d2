import SchemaGraft.Schema.Basic
import SchemaGraft.Text.Block

/-!
# Printing schemas

A schema is printed as a document that defines it: the names of its root types, unless they have
their default names, then its directives and its types in order, each separated from the next by a
blank line. Definitions that every schema starts with are left out.

A description on one line is printed as a quoted string and any other as a block string, except in
the arguments of fields and directives, which stand on one line themselves.
-/

set_option autoImplicit false

namespace SchemaGraft

namespace Schema

/-! ## Descriptions and directive applications -/

/-- The description of a definition or of a member that is indented. -/
def printDescription (indent : String) : Option String → String
  | none => ""
  | some description =>
    if description.toList.contains '\n' then
      indent ++ "\"\"\"\n" ++
        String.join ((Text.blockLines description.toList).map fun line =>
          indent ++ String.ofList line ++ "\n") ++
        indent ++ "\"\"\"\n"
    else indent ++ Text.quote description ++ "\n"

/-- The argument of a directive application. -/
def printArgument (argument : Node Argument) : String :=
  argument.value.name.text ++ ": " ++ argument.value.value.value.print

/-- A directive application after what it is applied to. -/
def printDirective (directive : Node Directive) : String :=
  " @" ++ directive.value.name.text ++
    if directive.value.arguments.isEmpty then ""
    else "(" ++ ", ".intercalate (directive.value.arguments.map printArgument) ++ ")"

/-- The directive applications after what they are applied to. -/
def printDirectives (directives : Directives) : String :=
  String.join (directives.map printDirective)

/-! ## Members -/

/-- An argument or input field without its description. -/
def printInputValue (value : Node InputValueDefinition) : String :=
  value.value.name.text ++ ": " ++ value.value.type.value.print ++
    (match value.value.default with
      | some default => " = " ++ default.value.print
      | none => "") ++
    printDirectives value.value.directives

/-- An argument with its description. -/
def printArgumentDefinition (argument : Node InputValueDefinition) : String :=
  (match argument.value.description with
    | some description => Text.quote description ++ " "
    | none => "") ++
    printInputValue argument

/-- The arguments of a field or directive. -/
def printArgumentDefinitions (arguments : List (Node InputValueDefinition)) : String :=
  if arguments.isEmpty then ""
  else "(" ++ ", ".intercalate (arguments.map printArgumentDefinition) ++ ")"

/-- A field on lines of its own. -/
def printField (field : Node Field) : String :=
  printDescription "  " field.value.description ++ "  " ++ field.value.name.text ++
    printArgumentDefinitions field.value.arguments ++ ": " ++ field.value.type.value.print ++
    printDirectives field.value.directives ++ "\n"

/-- An enum value on lines of its own. -/
def printEnumValue (value : Node EnumValue) : String :=
  printDescription "  " value.value.description ++ "  " ++ value.value.name.text ++
    printDirectives value.value.directives ++ "\n"

/-- An input field on lines of its own. -/
def printInputField (field : Node InputValueDefinition) : String :=
  printDescription "  " field.value.description ++ "  " ++ printInputValue field ++ "\n"

/-- Members in braces, after the beginning of a definition. -/
def printBraced (members : List String) : String :=
  " \x7b\n" ++ String.join members ++ "\x7d\n"

/-- Names of which the first stands after one text and the others after another. -/
def printNames (before between : String) : List Name → String
  | [] => ""
  | first :: rest =>
    before ++ first.text ++ String.join (rest.map fun name => between ++ name.text)

/-! ## Definitions -/

/-- An object or interface type. -/
def printObjectLike (keyword : String) (type : ObjectLikeType) : String :=
  keyword ++ " " ++ type.name.text ++ printNames " implements " " & " type.interfaces.keys ++
    printDirectives type.directives ++
    if type.fields.isEmpty then "\n" else printBraced (type.fields.values.map printField)

/-- A type without its description. -/
def printTypeBody : SchemaType → String
  | .scalar type =>
    "scalar " ++ type.value.name.text ++ printDirectives type.value.directives ++ "\n"
  | .object type => printObjectLike "type" type.value
  | .interface type => printObjectLike "interface" type.value
  | .union type =>
    "union " ++ type.value.name.text ++ printDirectives type.value.directives ++
      printNames " = " " | " type.value.members.keys ++ "\n"
  | .enum type =>
    "enum " ++ type.value.name.text ++ printDirectives type.value.directives ++
      printBraced (type.value.values.values.map printEnumValue)
  | .inputObject type =>
    "input " ++ type.value.name.text ++ printDirectives type.value.directives ++
      printBraced (type.value.fields.values.map printInputField)

/-- A type. -/
def printType (type : SchemaType) : String :=
  printDescription "" type.description ++ printTypeBody type

/-- A directive. -/
def printDirectiveDefinition (directive : Node DirectiveDefinition) : String :=
  printDescription "" directive.value.description ++ "directive @" ++ directive.value.name.text ++
    printArgumentDefinitions directive.value.arguments ++
    (if directive.value.repeatable then " repeatable" else "") ++ " on " ++
    " | ".intercalate (directive.value.locations.map (·.print)) ++ "\n"

/-- The names of the root types. -/
def printRoots (roots : RootOperations) : String :=
  "schema" ++ printBraced (roots.toList.map fun (operation, name) =>
    "  " ++ operation.keyword ++ ": " ++ name.text ++ "\n")

/-! ## Schemas -/

/-- Whether all root types have their default names, so that the text need not name them. -/
def hasDefaultRoots (schema : Schema) : Bool :=
  schema.roots.toList.all fun (operation, name) => name.text == operation.defaultRootName

/-- The definitions that the text of a schema consists of. -/
def printedDefinitions (schema : Schema) : List String :=
  (if schema.hasDefaultRoots then [] else [printRoots schema.roots]) ++
    (schema.directives.values.filter fun directive => !directive.isBuiltIn).map
      printDirectiveDefinition ++
    (schema.types.values.filter fun type => !type.isBuiltIn).map printType

/-- The text of a schema. -/
def print (schema : Schema) : String := "\n".intercalate schema.printedDefinitions

end Schema

end SchemaGraft
