import VbaTrace.Grammar.Expressions

/-!
Declarations and statements. A statement does not include the end of its line.
-/

set_option autoImplicit false

namespace VbaTrace.Grammar.Pattern

/-- Words that start a statement of a known form. -/
def keywordStart : Pattern :=
  (optional (keywords ["Public", "Private", "End"]) ++ keywords ["Sub", "Function"]) <|>
    keywords ["Set", "For", "Next", "If", "Then", "Else", "ElseIf", "End If", "New", "#If",
      "#Else", "#ElseIf", "#End If", "Exit", "Type", "As", "ByVal", "While", "Do", "Until",
      "Select", "Case", "On"]

def unknownStatement : Pattern :=
  build .unknown
    (absent (ref .keywordStart) ++
      label "text" .first
        (joinedLoosely
          (atLeastOne (lexeme (.except ['"', ':', '\'', '\n', '\r']) <|> rawQuotedString))))

def quotedIdentifier : Pattern :=
  build .firstItem (joined (litDrop "\"" ++ ref .identifier ++ litDrop "\""))

def attributeStatement : Pattern :=
  build .attributeLine
    (kwDrop "Attribute" ++ label "name" .first lexIdentifier ++ litDrop "=" ++
      label "value" .first (ref .literal))

def optionStatement : Pattern :=
  build .optionLine
    (kwDrop "Option" ++ ref .unrestrictedName ++ optional (ref .unrestrictedName))

def typeDeclaration : Pattern :=
  keywords ["Public", "Private"] ++ kw "Type" ++ lexIdentifier ++ drop (ref .endOfStatement) ++
    atLeastOne
      (lexIdentifier ++ kw "As" ++ ref .reservedType ++ drop (ref .endOfStatement)) ++
    kw "End" ++ kw "Type"

def arrayDesignator : Pattern := lit "(" ++ lit ")"

def functionType : Pattern := kw "as" ++ lexIdentifier ++ optional arrayDesignator

/-! Parameters -/

def defaultValue : Pattern := litDrop "=" ++ label "default_value" .first (ref .exprConst)

def parameterMechanism : Pattern := keywords ["ByVal", "ByRef"]

def optionalParam : Pattern :=
  (kw "optional" ++ parameterMechanism) <|> (parameterMechanism ++ kw "optional")

def parameterType : Pattern :=
  optional arrayDesignator ++ kwDrop "as" ++ (lexIdentifier <|> kw "Any")

def untypedParameter : Pattern := ref .identifier ++ optional parameterType

def parameter : Pattern :=
  build .parameter
    (optional (kwDrop "optional") ++ drop (optional parameterMechanism) ++
      label "name" .first (ref .dottedName) ++
      drop (optional (kw "(" ++ many (lit " ") ++ kw ")")) ++
      optional (kwDrop "as" ++ label "type" .first lexIdentifier))

def parametersList : Pattern := delimited (ref .parameter)

/-! Labels and blocks -/

def labelDefinition : Pattern :=
  lexeme .lineStart ++
    ((label "label_name" .first (ref .identifier) ++ litDrop ":") <|>
      (label "label_int" .first (ref .integer) ++ optional (litDrop ":")))

def statementLabel : Pattern := ref .identifier <|> ref .integer

def statementLabels : Pattern := delimited statementLabel

def blockStatement : Pattern :=
  ref .remStatement <|> ref .externalFunction <|> ref .statement <|> ref .labelDefinition

def blockLine : Pattern := ref .blockStatement ++ drop (ref .endOfStatement)

def statementBlock : Pattern := many blockLine

/-- A block under the label `statements`; an absent block leaves no label. -/
def labelledBlock : Pattern := optional (label "statements" .whole (atLeastOne blockLine))

/-! Variable declarations -/

def lowerBound : Pattern := ref .expression ++ kwDrop "to"

def dimSpec : Pattern := optional lowerBound ++ ref .expression

def boundsList : Pattern := delimited dimSpec

def arrayDim : Pattern := lit "(" ++ drop (optional boundsList) ++ lit ")"

def stringLength : Pattern := ref .simpleName <|> ref .integer

def fixedLengthString : Pattern := kwDrop "string" ++ litDrop "*" ++ stringLength

def typeSpec : Pattern := fixedLengthString <|> lexIdentifier

def asType : Pattern := kwDrop "as" ++ typeSpec

def asAutoObject : Pattern := kwDrop "as" ++ kwDrop "new" ++ ref .simpleName

def asClause : Pattern := asAutoObject <|> asType

def arrayClause : Pattern := arrayDim ++ optional asClause

def untypedVariable : Pattern := ref .identifier ++ optional (arrayClause <|> asClause)

def typedVariable : Pattern := ref .typedName ++ optional arrayDim

def variableDeclaration : Pattern :=
  (typedVariable <|> untypedVariable) ++
    optional (lit "=" ++ label "expression" .first (ref .expression))

def variableDeclarations : Pattern := delimited (group (ref .variableDeclaration))

def dimStatement : Pattern :=
  build .dim
    (kwDrop "Dim" ++ drop (optional (kw "Shared")) ++ ref .variableDeclarations)

def publicPrivate : Pattern := drop (optional (keywords ["Public", "Private"]))

def globalDeclaration : Pattern :=
  build .globalVar
    (drop (optional (ref .publicPrivate)) ++ drop (optional (kw "Shared")) ++
      drop (optional (kw "Const")) ++ ref .variableDeclarations)

/-! Assignments -/

def letStatement : Pattern :=
  build .assign
    (drop (optional (keywords ["Let", "Set"])) ++ optional (litDrop "Const") ++
      longest
        (label "name" .first (ref .dottedName) ++
          optional (litDrop "(" ++ label "index" .first (ref .expression) ++ litDrop ")"))
        (label "name" .first (ref .memberAccess)) ++
      litDrop "=" ++
      longest (label "expression" .first (ref .expression))
        (label "expression" .first (ref .booleanExpression)))

def propertyAssign : Pattern :=
  build .property
    (label "prop" .first (ref .memberAccess) ++ label "param" .first lexIdentifier ++
      drop (kw ":=") ++ label "value" .first (ref .expression))

/-! Loops -/

def stepClause : Pattern := kwDrop "Step" ++ ref .expression

def forClause : Pattern :=
  kwDrop "For" ++ label "name" .first lexIdentifier ++
    drop (optional (kw "As" ++ lexIdentifier)) ++ litDrop "=" ++
    label "start_value" .first (ref .expression) ++ kwDrop "To" ++
    label "end_value" .first (ref .expression) ++
    optional (label "step_value" .whole stepClause)

def nextClause : Pattern :=
  kwDrop "Next" ++ optional lexIdentifier ++ ahead (ref .endOfStatement)

def forStatement : Pattern :=
  build .forLoop (ref .forClause ++ drop (ref .endOfStatement) ++ labelledBlock ++ nextClause)

/-- A `Next` that belongs to no loop. -/
def strayNext : Pattern := kw "Next" ++ drop (ref .endOfStatement)

def forStart : Pattern := build .forLoop (ref .forClause ++ drop (ref .endOfLine))

def forEnd : Pattern := kwDrop "Next" ++ optional lexIdentifier ++ drop (ref .endOfLine)

def forEachClause : Pattern :=
  kwDrop "For" ++ kwDrop "Each" ++ label "item" .first lexIdentifier ++ kwDrop "In" ++
    label "container" .first (ref .expression)

def forEachStatement : Pattern :=
  build .forEach
    (label "clause" .whole (ref .forEachClause) ++ drop (ref .endOfStatement) ++ labelledBlock ++
      nextClause)

def whileType : Pattern := keywords ["While", "Until"]

def whileClause : Pattern :=
  optional (kwDrop "Do") ++ label "type" .first whileType ++
    label "guard" .first (ref .booleanExpression)

def whileStatement : Pattern :=
  build .whileLoop
    (label "clause" .whole (ref .whileClause) ++ drop (ref .endOfStatement) ++
      group (ref .statementBlock) ++ (kwDrop "Loop" <|> kwDrop "Wend"))

def doStatement : Pattern :=
  build .doLoop
    (kwDrop "Do" ++ drop (ref .endOfStatement) ++ group (ref .statementBlock) ++ kwDrop "Loop" ++
      label "type" .first whileType ++ label "guard" .first (ref .booleanExpression))

/-! Selections. Inside a selection the tokens of its clauses are labelled before the clause is built,
so that a clause sees all of them; matched on its own a clause sees only what it labels itself. -/

def selectTokens : Pattern :=
  kwDrop "Select" ++ kwDrop "Case" ++ label "select_val" .first (ref .expression)

def selectClause : Pattern := build .selectClause selectTokens

def caseTokens : Pattern :=
  kwDrop "Case" ++
    ((label "lbound" .first (ref .expression) ++ kwDrop "To" ++
        label "ubound" .first (ref .expression)) <|>
      kw "Else" <|>
      (label "case_val" .first (ref .expression) ++ many (litDrop "," ++ ref .expression)))

def caseClause : Pattern := build .caseClause caseTokens

def selectCase : Pattern :=
  build .selectCase
    (label "case_val" .first (build .caseClause (label "case_val" .whole caseTokens)) ++
      drop (ref .endOfStatement) ++ label "body" .first (group (ref .statementBlock)))

def selectStatement : Pattern :=
  build .select
    (label "select_val" .first (build .selectClause (label "select_val" .whole selectTokens)) ++
      drop (ref .endOfStatement) ++ label "cases" .first (group (atLeastOne (ref .selectCase))) ++
      kwDrop "End" ++ kwDrop "Select")

/-! Conditionals -/

def guardedBlock (word : String) : Pattern :=
  group (kwDrop word ++ ref .booleanExpression ++ kwDrop "Then" ++ drop (ref .endOfStatement) ++
    group (ref .statementBlock))

def elseBlock (word : String) : Pattern :=
  group (kwDrop word ++ drop (ref .endOfStatement) ++ group (ref .statementBlock))

def openIf : Pattern :=
  guardedBlock "If" ++ many (guardedBlock "ElseIf") ++ optional (elseBlock "Else")

def multiLineIf : Pattern :=
  guardedBlock "If" ++ many (guardedBlock "ElseIf") ++ optional (elseBlock "Else") ++
    kwDrop "End" ++ kwDrop "If"

def guardedLine (word : String) : Pattern :=
  group (kwDrop word ++ ref .booleanExpression ++ kwDrop "Then" ++
    group (ref .simpleStatementsLine))

def singleLineIf : Pattern :=
  guardedLine "If" ++ many (guardedLine "ElseIf") ++
    optional (group (kwDrop "Else" ++ group (ref .simpleStatementsLine)))

def ifStatement : Pattern :=
  build .conditional (longest (ref .multiLineIf) (ref .singleLineIf))

def directiveIf : Pattern :=
  build .directive
    (guardedBlock "#If" ++ many (guardedBlock "#ElseIf") ++ optional (elseBlock "#Else") ++
      kwDrop "#End If" ++ ahead (ref .endOfStatement))

/-! Other statements -/

def callParams : Pattern :=
  longest callArguments (label "params" .whole (ref .exprList))

def callStatement : Pattern :=
  build .callStatement
    (absent (ref .keywordStart) ++ optional (kwDrop "Call") ++
      (label "name" .first (ref .memberAccessLimited) <|>
        label "name" .first (ref .looseDottedName)) ++
      optional (ref .callParams))

def exitForStatement : Pattern := build .exitFor (kwDrop "Exit" ++ kwDrop "For")

def exitDoStatement : Pattern := build .exitDo (kwDrop "Exit" ++ kwDrop "Do")

def exitLoopStatement : Pattern := ref .exitForStatement <|> ref .exitDoStatement

def exitProcedureStatement : Pattern :=
  build .exitProcedure
    ((kwDrop "Exit" ++ kwDrop "Function") <|> (kwDrop "Exit" ++ kwDrop "Sub") <|> kwDrop "Return")

def redimStatement : Pattern :=
  build .redim
    (kwDrop "ReDim" ++ label "item" .first (ref .expression) ++
      drop (optional
        (lit "(" ++ ref .expression ++ kw "To" ++ ref .expression ++ lit ")")) ++
      drop (optional (kw "As" ++ lexIdentifier)))

def withStatement : Pattern :=
  build .withBlock
    (kwDrop "With" ++ label "env" .first lexIdentifier ++ drop (ref .endOfStatement) ++
      group (ref .statementBlock) ++ kwDrop "End" ++ kwDrop "With")

def gotoStatement : Pattern := build .goto (kwDrop "Goto" ++ label "label" .first lexIdentifier)

def labelStatement : Pattern :=
  build .label (label "label" .first (ref .identifier) ++ litDrop ":")

def onErrorStatement : Pattern :=
  build .onError
    (kw "On" ++ kw "Error" ++
      ((kw "Goto" ++ (ref .decimalLiteral <|> lexIdentifier)) <|> (kw "Resume" ++ kw "Next")))

def fileType : Pattern :=
  kwDrop "For" ++
    label "mode" .first (keywords ["Append", "Binary", "Input", "Output", "Random"]) ++
    optional
      (kwDrop "Access" ++
        label "access" .first (longest (longest (kw "Read Write") (kw "Read")) (kw "Write")))

def fileOpenStatement : Pattern :=
  build .openFile
    (kwDrop "Open" ++ label "file_name" .first lexIdentifier ++ label "type" .whole fileType ++
      kwDrop "As" ++ label "file_id" .first (ref .filePointer))

def printStatement : Pattern :=
  build .print
    (kwDrop "Print" ++ label "file_id" .first (ref .filePointer) ++ drop (optional (lit ",")) ++
      label "value" .first (ref .expression))

def doEventsStatement : Pattern := kwDrop "DoEvents"

/-- The statements that fit on one line. Of an assignment, a property setting, an expression, a call
and a label the longest is taken. -/
def simpleStatement : Pattern :=
  ref .dimStatement <|> ref .optionStatement <|>
    longest
      (longest
        (longest (longest (ref .letStatement) (ref .propertyAssign)) (ref .expression))
        (ref .callStatement))
      (ref .labelStatement) <|>
    ref .exitLoopStatement <|> ref .exitProcedureStatement <|> ref .redimStatement <|>
    ref .gotoStatement <|> ref .onErrorStatement <|> ref .fileOpenStatement <|>
    doEventsStatement <|> ref .remStatement <|> ref .printStatement

def simpleStatementsLine : Pattern :=
  ref .simpleStatement ++ many (litDrop ":" ++ ref .simpleStatement)

def statement : Pattern :=
  ref .typeDeclaration <|> ref .forStatement <|> ref .forEachStatement <|> ref .ifStatement <|>
    ref .directiveIf <|> ref .whileStatement <|> ref .doStatement <|> ref .selectStatement <|>
    ref .withStatement <|> ref .simpleStatement

def statementsLine : Pattern :=
  optional (ref .statement ++ many (litDrop ":" ++ ref .statement)) ++
    drop (ref .endOfStatement)

def statementLines : Pattern := many (ref .statementsLine)

/-! External procedures -/

def returnType : Pattern :=
  kwDrop "As" ++ label "return_type" .first lexIdentifier ++ drop (optional (lit "(" ++ lit ")"))

def parenthesizedParams : Pattern :=
  litDrop "(" ++ optional (label "params" .whole (ref .parametersList)) ++ litDrop ")"

def libInfo : Pattern :=
  kwDrop "Lib" ++ label "lib_name" .first quotedString ++
    optional (kw "Alias" ++ label "alias_name" .first quotedString)

def externalFunction : Pattern :=
  build .external
    (ref .publicPrivate ++
      drop (kw "Declare" ++ optional (kw "PtrSafe") ++ keywords ["Function", "Sub"]) ++
      label "function_name" .first lexIdentifier ++ libInfo ++
      optional parenthesizedParams ++ optional returnType)

/-! Procedures -/

def procedureScope : Pattern :=
  drop (optional (keywords ["Public", "Private", "Global", "Friend"]))

def staticKeyword : Pattern := optional (kw "static")

def lifecycleName : Pattern := keywords ["Class_Initialize", "Class_Terminate"]

def procedureName : Pattern := ref .identifier <|> lifecycleName

def functionName : Pattern :=
  joined (ref .identifier ++ drop (optional typeSuffix)) <|> lifecycleName

def procedureTail : Pattern :=
  ahead (ref .lineTerminator) <|> ref .comment <|> (lit ":" ++ ref .remStatement)

def subStart : Pattern :=
  optional (kw "Static") ++ ref .publicPrivate ++ kwDrop "Sub" ++
    label "sub_name" .first lexIdentifier ++ optional parenthesizedParams ++
    drop (ref .endOfStatement)

def subEnd : Pattern :=
  drop (kw "End" ++ keywords ["Sub", "Function"] ++ ref .endOfStatement)

/-- A procedure: its statements, then an unterminated conditional and a stray `Next`, if any. -/
def sub : Pattern :=
  build .sub
    (ref .subStart ++ label "statements" .first (group (ref .statementLines)) ++
      optional (label "bogus_if" .whole (ref .openIf)) ++ drop (optional (ref .strayNext)) ++
      ref .subEnd)

def subStartLine : Pattern :=
  build .sub
    (ref .publicPrivate ++ kwDrop "Sub" ++ label "sub_name" .first lexIdentifier ++
      optional parenthesizedParams ++ drop (ref .endOfStatement))

def functionStart : Pattern :=
  optional (kw "Static") ++ optional (ref .publicPrivate) ++ kwDrop "Function" ++
    label "function_name" .first (ref .dottedName) ++ optional parenthesizedParams ++
    optional returnType ++ drop (ref .endOfStatement)

def functionEnd : Pattern := drop (kw "End" ++ kw "Function" ++ ref .endOfStatement)

def function : Pattern :=
  build .function
    (ref .functionStart ++ label "statements" .first (group (ref .statementLines)) ++
      optional (label "bogus_if" .whole (ref .openIf)) ++ drop (optional (ref .strayNext)) ++
      ref .functionEnd)

def functionStartLine : Pattern :=
  build .function
    (ref .publicPrivate ++ kwDrop "Function" ++ label "function_name" .first lexIdentifier ++
      optional parenthesizedParams ++ optional returnType ++ drop (ref .endOfStatement))

/-! Modules -/

def headerLine : Pattern :=
  (optional (ref .attributeStatement ++ many (litDrop ":" ++ ref .attributeStatement)) ++
      drop (ref .endOfLine)) <|>
    ref .optionStatement <|> ref .typeDeclaration <|> ref .directiveIf

def moduleHeader : Pattern := many (ref .headerLine)

def declarationStatement : Pattern :=
  ref .optionStatement <|> ref .dimStatement <|> ref .globalDeclaration <|> ref .externalFunction

def declarationLine : Pattern :=
  optional (ref .declarationStatement ++ many (litDrop ":" ++ ref .declarationStatement)) ++
    drop (ref .endOfLine)

def moduleDeclarations : Pattern := many (ref .declarationLine)

def emptyLine : Pattern := drop (ref .endOfLine)

def moduleCode : Pattern :=
  many (ref .optionStatement <|> ref .sub <|> ref .function <|> emptyLine)

def moduleBody : Pattern := ref .moduleDeclarations ++ ref .moduleCode

def codeModule : Pattern := build .codeModule (ref .moduleHeader ++ ref .moduleBody)

/-- Any one line of code, for reading a module line by line. -/
def anyLine : Pattern :=
  ref .declarationLine <|> ref .subStartLine <|> ref .subEnd <|> ref .functionStart <|>
    ref .functionEnd <|> ref .forStart <|> ref .forEnd <|> ref .headerLine <|>
    ref .simpleStatementsLine <|> emptyLine

end VbaTrace.Grammar.Pattern
