/-!
The rules of the grammar. Every rule can be matched on its own; the operator rules form ladders, in
which each level handles one operator over the level below.
-/

set_option autoImplicit false

namespace VbaTrace.Grammar

/-- The ladders of operators. -/
inductive Ladder
  /-- Every operator. -/
  | full
  /-- The operators that bind tighter than `And`, for comparisons. -/
  | limited
  /-- Sums and concatenations of constants. -/
  | constant
  /-- Connectives over comparisons. -/
  | boolean
deriving DecidableEq, Repr

inductive Rule
  -- physical and logical lines
  | nonLineTerminator | lineTerminator | nonTerminatedLine | sourceLine | physicalLines
  | whitespaces | lineContinuation | extendedLine | logicalLines | logicalLine | moduleLines
  | singleQuote | commentBody | comment | remStatement | endOfLine | endOfStatement
  -- reserved words
  | statementKeyword | remKeyword | markerKeyword | operatorIdentifier | reservedName
  | specialForm | reservedType | booleanWord | objectWord | variantWord | literalWord
  | implementationReserved | futureReserved | reservedIdentifier | reservedKeywords
  -- names
  | lexIdentifier | identifier | foreignName | builtinType | typeSuffix | typedName | entityName
  | unrestrictedName | dottedName | looseDottedName
  -- literals
  | booleanLiteral | decimalLiteral | octalLiteral | hexLiteral | integer | floatLiteral
  | quotedString | rawQuotedString | dateString | literal
  -- expressions
  | expression | chrCall | ascCall | strReverseCall | environCall | filePointer
  | simpleName | instanceExpression | lExpression | callLimited | functionCall
  | memberObject | memberAccess | memberObjectLimited | memberAccessLimited
  | procedurePointer | addressOf | argumentExpression | namedArgument | namedArguments
  | positionalArgument | positionalOrNamed | argumentList | indexExpression
  | dictionaryAccess | withMember | withDictionary | withExpression | newExpression
  | booleanExpression | exprListItem | exprList | callElement | exprItem | limitedExpression
  | exprConst | chrConst | ascConst | strReverseConst | environConst | exprConstItem | boolExprItem
  | level (ladder : Ladder) (height : Nat)
  -- statements
  | keywordStart | unknownStatement | quotedIdentifier | attributeStatement | optionStatement
  | typeDeclaration | arrayDesignator | functionType | defaultValue | parameterMechanism
  | optionalParam | parameterType | untypedParameter | parameter | parametersList
  | labelDefinition | statementLabel | statementLabels | statement | externalFunction
  | blockStatement | statementBlock | lowerBound | dimSpec | boundsList | arrayDim | stringLength
  | fixedLengthString | typeSpec | asType | asAutoObject | asClause | arrayClause
  | untypedVariable | typedVariable | variableDeclaration | variableDeclarations | dimStatement
  | publicPrivate | globalDeclaration | letStatement | propertyAssign | stepClause | forClause
  | forStatement | strayNext | forStart | forEnd | forEachClause | forEachStatement | whileType
  | whileClause | whileStatement | doStatement | selectClause | caseClause | selectCase
  | selectStatement | multiLineIf | openIf | simpleStatementsLine | singleLineIf | ifStatement
  | directiveIf | callParams | callStatement | exitForStatement | exitDoStatement
  | exitLoopStatement | exitProcedureStatement | redimStatement | withStatement | gotoStatement
  | labelStatement | onErrorStatement | fileType | fileOpenStatement | printStatement
  | doEventsStatement | simpleStatement | statementsLine | returnType | parenthesizedParams
  | libInfo
  -- procedures
  | procedureScope | staticKeyword | lifecycleName | procedureName | functionName
  | procedureTail | subStart | subEnd | sub | subStartLine | functionStart | functionEnd
  | function | functionStartLine
  -- modules
  | headerLine | moduleHeader | declarationStatement | declarationLine | moduleDeclarations
  | emptyLine | moduleCode | moduleBody | codeModule | anyLine
  -- lines of a session
  | statementLines
deriving DecidableEq, Repr

namespace Ladder

def index : Ladder → Nat
  | full => 0 | limited => 1 | constant => 2 | boolean => 3

end Ladder

namespace Rule

/-- A number for each rule, distinct for the levels that ladders have. -/
def code : Rule → Nat
  | level l h => 1024 + l.index + 4 * h
  | r => r.ctorIdx

end Rule

end VbaTrace.Grammar
