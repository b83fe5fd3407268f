import VbaTrace.Grammar.Statements

/-!
The grammar: the pattern of every rule.
-/

set_option autoImplicit false

namespace VbaTrace.Grammar.Pattern

def ofRule : Rule → Pattern
  | .nonLineTerminator => nonLineTerminator | .lineTerminator => lineTerminator
  | .nonTerminatedLine => nonTerminatedLine | .sourceLine => sourceLine
  | .physicalLines => physicalLines | .whitespaces => whitespaces
  | .lineContinuation => lineContinuation | .extendedLine => extendedLine
  | .logicalLines => logicalLines | .logicalLine => logicalLine | .moduleLines => moduleLines
  | .singleQuote => singleQuote | .commentBody => commentBody | .comment => comment
  | .remStatement => remStatement | .endOfLine => endOfLine | .endOfStatement => endOfStatement
  | .statementKeyword => keywords statementWords | .remKeyword => keywords remWords
  | .markerKeyword => keywords markerWords | .operatorIdentifier => keywords operatorWords
  | .reservedName => keywords reservedNames | .specialForm => keywords specialForms
  | .reservedType => keywords typeWords | .booleanWord => keywords booleanWords
  | .objectWord => keywords objectWords | .variantWord => keywords variantWords
  | .literalWord => keywords (booleanWords ++ objectWords)
  | .implementationReserved => keywords implementationWords
  | .futureReserved => keywords futureWords | .reservedIdentifier => keywords reservedWords
  | .reservedKeywords => keywords uncallableWords | .lexIdentifier => lexIdentifier
  | .identifier => identifier | .foreignName => foreignName | .builtinType => builtinType
  | .typeSuffix => typeSuffix | .typedName => typedName | .entityName => entityName
  | .unrestrictedName => unrestrictedName | .dottedName => dottedName
  | .looseDottedName => looseDottedName | .booleanLiteral => booleanLiteral
  | .decimalLiteral => decimalLiteral | .octalLiteral => octalLiteral | .hexLiteral => hexLiteral
  | .integer => integer | .floatLiteral => floatLiteral | .quotedString => quotedString
  | .rawQuotedString => rawQuotedString | .dateString => dateString | .literal => literal
  | .expression => expression | .chrCall => chrCall | .ascCall => ascCall
  | .strReverseCall => strReverseCall | .environCall => environCall | .filePointer => filePointer
  | .simpleName => simpleName | .instanceExpression => instanceExpression
  | .lExpression => lExpression | .callLimited => callLimited | .functionCall => functionCall
  | .memberObject => memberObject | .memberAccess => memberAccess
  | .memberObjectLimited => memberObjectLimited | .memberAccessLimited => memberAccessLimited
  | .procedurePointer => procedurePointer | .addressOf => addressOf
  | .argumentExpression => argumentExpression | .namedArgument => namedArgument
  | .namedArguments => namedArguments | .positionalArgument => positionalArgument
  | .positionalOrNamed => positionalOrNamed | .argumentList => argumentList
  | .indexExpression => indexExpression | .dictionaryAccess => dictionaryAccess
  | .withMember => withMember | .withDictionary => withDictionary
  | .withExpression => withExpression | .newExpression => newExpression
  | .booleanExpression => booleanExpression | .exprListItem => exprListItem
  | .exprList => exprList | .callElement => callElement | .exprItem => exprItem
  | .limitedExpression => limitedExpression | .exprConst => exprConst | .chrConst => chrConst
  | .ascConst => ascConst | .strReverseConst => strReverseConst | .environConst => environConst
  | .exprConstItem => exprConstItem | .boolExprItem => boolExprItem | .level l h => l.pattern h
  | .keywordStart => keywordStart | .unknownStatement => unknownStatement
  | .quotedIdentifier => quotedIdentifier | .attributeStatement => attributeStatement
  | .optionStatement => optionStatement | .typeDeclaration => typeDeclaration
  | .arrayDesignator => arrayDesignator | .functionType => functionType
  | .defaultValue => defaultValue | .parameterMechanism => parameterMechanism
  | .optionalParam => optionalParam | .parameterType => parameterType
  | .untypedParameter => untypedParameter | .parameter => parameter
  | .parametersList => parametersList | .labelDefinition => labelDefinition
  | .statementLabel => statementLabel | .statementLabels => statementLabels
  | .statement => statement | .externalFunction => externalFunction
  | .blockStatement => blockStatement | .statementBlock => statementBlock
  | .lowerBound => lowerBound | .dimSpec => dimSpec | .boundsList => boundsList
  | .arrayDim => arrayDim | .stringLength => stringLength
  | .fixedLengthString => fixedLengthString | .typeSpec => typeSpec | .asType => asType
  | .asAutoObject => asAutoObject | .asClause => asClause | .arrayClause => arrayClause
  | .untypedVariable => untypedVariable | .typedVariable => typedVariable
  | .variableDeclaration => variableDeclaration | .variableDeclarations => variableDeclarations
  | .dimStatement => dimStatement | .publicPrivate => publicPrivate
  | .globalDeclaration => globalDeclaration | .letStatement => letStatement
  | .propertyAssign => propertyAssign | .stepClause => stepClause | .forClause => forClause
  | .forStatement => forStatement | .strayNext => strayNext | .forStart => forStart
  | .forEnd => forEnd | .forEachClause => forEachClause | .forEachStatement => forEachStatement
  | .whileType => whileType | .whileClause => whileClause | .whileStatement => whileStatement
  | .doStatement => doStatement | .selectClause => selectClause | .caseClause => caseClause
  | .selectCase => selectCase | .selectStatement => selectStatement | .multiLineIf => multiLineIf
  | .openIf => openIf | .simpleStatementsLine => simpleStatementsLine
  | .singleLineIf => singleLineIf | .ifStatement => ifStatement | .directiveIf => directiveIf
  | .callParams => callParams | .callStatement => callStatement
  | .exitForStatement => exitForStatement | .exitDoStatement => exitDoStatement
  | .exitLoopStatement => exitLoopStatement | .exitProcedureStatement => exitProcedureStatement
  | .redimStatement => redimStatement | .withStatement => withStatement
  | .gotoStatement => gotoStatement | .labelStatement => labelStatement
  | .onErrorStatement => onErrorStatement | .fileType => fileType
  | .fileOpenStatement => fileOpenStatement | .printStatement => printStatement
  | .doEventsStatement => doEventsStatement | .simpleStatement => simpleStatement
  | .statementsLine => statementsLine | .returnType => returnType
  | .parenthesizedParams => parenthesizedParams | .libInfo => libInfo
  | .procedureScope => procedureScope | .staticKeyword => staticKeyword
  | .lifecycleName => lifecycleName | .procedureName => procedureName
  | .functionName => functionName | .procedureTail => procedureTail | .subStart => subStart
  | .subEnd => subEnd | .sub => sub | .subStartLine => subStartLine
  | .functionStart => functionStart | .functionEnd => functionEnd | .function => function
  | .functionStartLine => functionStartLine | .headerLine => headerLine
  | .moduleHeader => moduleHeader | .declarationStatement => declarationStatement
  | .declarationLine => declarationLine | .moduleDeclarations => moduleDeclarations
  | .emptyLine => emptyLine | .moduleCode => moduleCode | .moduleBody => moduleBody
  | .codeModule => codeModule | .anyLine => anyLine | .statementLines => statementLines

end VbaTrace.Grammar.Pattern
