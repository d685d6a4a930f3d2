import SchemaGraft.Token.Lexeme

/-!
# What can be wrong with the order of tokens

The grammar goes on after every mistake, so a document can have many. A `GrammarProblem` says what
was missing or out of place; a `SyntaxProblem` is such a mistake or one inside a token. The two
limits, on tokens and on depth, are problems too: nothing is reported after one of them.
-/

set_option autoImplicit false

namespace SchemaGraft

/-- The closing marks whose absence is reported together with what stands in their place. -/
inductive ClosingMark where
  | parenthesis
  | bracket
  | brace
  deriving DecidableEq

namespace ClosingMark

/-- The kind of token that a closing mark is. -/
def kind : ClosingMark → TokenKind
  | parenthesis => .rightParenthesis
  | bracket => .rightBracket
  | brace => .rightBrace

/-- What reports call a closing mark. -/
def label : ClosingMark → String
  | parenthesis => "R_PAREN"
  | bracket => "R_BRACK"
  | brace => "R_CURLY"

end ClosingMark

/-- What was missing, or out of place, at some token. -/
inductive GrammarProblem where
  | recursionLimitReached
  /-- A closing mark was missing; `found` stands there, or the end of the input. -/
  | closingMarkExpected (mark : ClosingMark) (found : Option String)
  | definitionAfterDescriptionExpected
  | documentItemExpected
  | definitionExpected
  | nameExpected
  | objectNameExpected
  | unexpectedName
  | argumentExpected
  | variableInConstant
  | valueExpected
  | reservedEnumValue
  | enumValueExpected
  | typeExpected
  | typeAfterColonExpected
  | itemTypeExpected
  | interfaceNameExpected
  | fieldDefinitionExpected
  | argumentDefinitionExpected
  | inputValueDefinitionExpected
  | enumValueDefinitionExpected
  | unionMemberExpected
  | atSignExpected
  | directiveLocationsExpected
  | directiveLocationExpected
  | validDirectiveLocationExpected
  | rootOperationTypeExpected
  | operationKeywordExpected
  | rootOperationExpected
  | invalidExtension
  | schemaExtensionContentExpected
  | scalarExtensionContentExpected
  | objectExtensionContentExpected
  | interfaceExtensionContentExpected
  | unionExtensionContentExpected
  | enumExtensionContentExpected
  | inputObjectExtensionContentExpected
  | operationExpected
  | operationSelectionSetExpected
  | inlineSelectionSetExpected
  | variableDefinitionExpected
  | fragmentOrSpreadExpected
  | selectionExpected
  | fragmentNamedOn
  | fragmentNameExpected
  | onExpected
  | typeConditionNameExpected
  | typeConditionExpected
  deriving DecidableEq

/-- The sentence that reports a problem. -/
def GrammarProblem.message : GrammarProblem → String
  | recursionLimitReached => "parser recursion limit reached"
  | closingMarkExpected mark found =>
    "expected " ++ mark.label ++ ", got " ++ found.getD "EOF"
  | definitionAfterDescriptionExpected => "expected a definition after this StringValue"
  | documentItemExpected => "expected a StringValue, Name or OperationDefinition"
  | definitionExpected => "expected definition"
  | nameExpected => "expected a Name"
  | objectNameExpected => "expected a name"
  | unexpectedName => "unexpected Name"
  | argumentExpected => "expected an Argument"
  | variableInConstant => "unexpected variable value in a Const context"
  | valueExpected => "expected a valid Value"
  | reservedEnumValue => "invalid Enum Value"
  | enumValueExpected => "expected Enum Value"
  | typeExpected => "expected a type"
  | typeAfterColonExpected => "expected a Type"
  | itemTypeExpected => "expected item type"
  | interfaceNameExpected => "expected an Interface name"
  | fieldDefinitionExpected => "expected Field Definition"
  | argumentDefinitionExpected => "expected an Argument Definition"
  | inputValueDefinitionExpected => "expected an Input Value Definition"
  | enumValueDefinitionExpected => "expected Enum Value Definition"
  | unionMemberExpected => "expected Union Member Type"
  | atSignExpected => "expected @ symbol"
  | directiveLocationsExpected => "expected Directive Locations"
  | directiveLocationExpected => "expected Directive Location"
  | validDirectiveLocationExpected => "expected valid Directive Location"
  | rootOperationTypeExpected => "expected a Name Type"
  | operationKeywordExpected => "expected either a 'mutation', a 'query', or a 'subscription'"
  | rootOperationExpected => "expected Root Operation Type Definition"
  | invalidExtension =>
    "Invalid Type System Extension. This extension cannot be applied."
  | schemaExtensionContentExpected => "expected directives or Root Operation Type Definition"
  | scalarExtensionContentExpected => "expected Directives"
  | objectExtensionContentExpected =>
    "expected an Implements Interface, Directives or a Fields Definition"
  | interfaceExtensionContentExpected =>
    "exptected an Implements Interfaces, Directives, or a Fields Definition"
  | unionExtensionContentExpected => "expected Directives or Union Member Types"
  | enumExtensionContentExpected => "expected Directive or Enum Values Definition"
  | inputObjectExtensionContentExpected => "expected Directives or an Input Fields Definition"
  | operationExpected => "expected an Operation Type or a Selection Set"
  | operationSelectionSetExpected => "expected a Selection Set"
  | inlineSelectionSetExpected => "expected Selection Set"
  | variableDefinitionExpected => "expected a Variable Definition"
  | fragmentOrSpreadExpected => "expected an Inline Fragment or a Fragment Spread"
  | selectionExpected => "expected at least one Selection in Selection Set"
  | fragmentNamedOn => "Fragment Name cannot be 'on'"
  | fragmentNameExpected => "expected Fragment Name"
  | onExpected => "expected 'on'"
  | typeConditionNameExpected => "expected a Name in Type Condition"
  | typeConditionExpected => "expected Type Condition"

/-- A mistake inside a token or in the order of tokens. -/
inductive SyntaxProblem where
  | lexical (problem : LexicalProblem)
  | grammatical (problem : GrammarProblem)
  deriving DecidableEq

namespace SyntaxProblem

/-- The sentence that reports a problem. -/
def message : SyntaxProblem → String
  | lexical problem => problem.message
  | grammatical problem => problem.message

/-- Whether the problem is that a limit was reached. -/
def isLimit : SyntaxProblem → Bool
  | lexical .tokenLimitReached => true
  | grammatical .recursionLimitReached => true
  | _ => false

end SyntaxProblem

/-- A mistake in a document, with the text that it is about. -/
abbrev SyntaxFault := Fault SyntaxProblem

end SchemaGraft
