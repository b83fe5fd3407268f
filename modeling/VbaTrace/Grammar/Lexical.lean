import VbaTrace.Grammar.Pattern

/-!
Lines, reserved words, names and literals.
-/

set_option autoImplicit false

namespace VbaTrace.Grammar.Pattern

def ref (r : Rule) : Pattern := rule r

/-! Lines -/

def lineBreaks : List Char := ['\r', '\n']

def nonLineTerminator : Pattern := lexeme (.oneExcept lineBreaks)

def restOfLine : Pattern := lexeme (.except lineBreaks)

def lineTerminator : Pattern := lit "\r\n" <|> lit "\r" <|> lit "\n"

def nonTerminatedLine : Pattern := optional restOfLine

def sourceLine : Pattern := optional restOfLine ++ ref .lineTerminator

def physicalLines : Pattern := many (ref .sourceLine) ++ optional (ref .nonTerminatedLine)

def whitespaces : Pattern := tight (lexeme (.word .inlineBlanks .inlineBlanks))

/-- A blank, an underscore and the end of the line stand for one space. -/
def lineContinuation : Pattern :=
  build .oneSpace
    (tight (whitespaces ++ lit "_" ++ optional whitespaces ++ ref .lineTerminator))

def extendedLine : Pattern :=
  tight (joined (many (ref .lineContinuation <|> nonLineTerminator) ++ ref .lineTerminator))

def logicalLines : Pattern := lexeme .nothing ++ many (ref .extendedLine)

def logicalLine : Pattern :=
  lexeme .lineStart ++ many (ref .extendedLine) ++ ref .lineTerminator

def moduleLines : Pattern := joined (many (ref .logicalLine))

def singleQuote : Pattern := lit "'"

def commentBody : Pattern := upTo (ref .lineTerminator)

def comment : Pattern := joined (singleQuote ++ ref .commentBody)

def remStatement : Pattern := drop (joined (kw "Rem" ++ ref .commentBody))

/-- The end of a line, with the comment before it. -/
def endOfLine : Pattern := optional (ref .comment) ++ ref .lineTerminator

/-- Line ends and colons. -/
def endOfStatement : Pattern := atLeastOne (ref .endOfLine <|> lit ":")

/-! Reserved words -/

def statementWords : List String :=
  ["Call", "Const", "Declare", "DefBool", "DefByte", "DefCur", "DefDate", "DefDbl", "DefInt",
    "DefLng", "DefLngLng", "DefLngPtr", "DefObj", "DefSng", "DefStr", "DefVar", "Dim", "Do",
    "Else", "ElseIf", "End", "EndIf", "Enum", "Erase", "Event", "Exit", "For", "Friend",
    "Function", "Get", "Global", "GoSub", "GoTo", "If", "Implements", "Input", "Let", "Lock",
    "Loop", "LSet", "Next", "On", "Open", "Option", "Print", "Private", "Public", "RaiseEvent",
    "ReDim", "Resume", "Return", "RSet", "Seek", "Select", "Set", "Static", "Stop", "Sub", "Type",
    "Unlock", "Wend", "While", "With", "Write"]

def markerWords : List String :=
  ["Any", "As", "ByRef", "ByVal ", "Case", "Each", "Else", "In", "New", "Shared", "Until",
    "WithEvents", "Write", "Optional", "ParamArray", "Preserve", "Spc", "Tab", "Then", "To"]

def operatorWords : List String :=
  ["AddressOf", "And", "Eqv", "Imp", "Is", "Like", "New", "Mod", "Not", "Or", "TypeOf", "Xor"]

def reservedNames : List String :=
  ["Asc", "Abs", "CBool", "CByte", "CCur", "CDate", "CLng", "CLngLng", "CLngPtr", "CSng", "CStr",
    "CVar", "CVErr", "Date", "Debug", "DoEvents", "Fix", "Int", "Len", "LenB", "Me", "PSet",
    "Scale", "Sgn", "String"]

def specialForms : List String :=
  ["Array", "Circle", "Input", "InputB", "LBound", "Scale", "UBound"]

def typeWords : List String :=
  ["Boolean", "Byte", "Currency", "Date", "Double", "Integer", "Long", "LongLong", "LongPtr",
    "Single", "String", "Variant"]

def booleanWords : List String := ["true", "false"]

def objectWords : List String := ["nothing"]

def variantWords : List String := ["empty", "null"]

def remWords : List String := ["Rem"]

def implementationWords : List String :=
  ["Attribute", "LINEINPUT", "VB_Base", "VB_Control", "VB_Creatable", "VB_Customizable",
    "VB_Description", "VB_Exposed", "VB_Ext_KEY ", "VB_GlobalNameSpace", "VB_HelpID",
    "VB_Invoke_Func", "VB_Invoke_Property ", "VB_Invoke_PropertyPut",
    "VB_Invoke_PropertyPutRefVB_MemberFlags", "VB_Name", "VB_PredeclaredId", "VB_ProcData",
    "VB_TemplateDerived", "VB_UserMemId", "VB_VarDescription", "VB_VarHelpID",
    "VB_VarMemberFlags", "VB_VarProcData ", "VB_VarUserMemId"]

def futureWords : List String := ["CDecl", "Decimal", "DefDec"]

/-- The words that are no identifiers; words of types are not among them as such. -/
def reservedWords : List String :=
  statementWords ++ markerWords ++ operatorWords ++ specialForms ++ reservedNames ++
    booleanWords ++ objectWords ++ remWords ++ implementationWords ++ futureWords

/-- Words that start no call. -/
def uncallableWords : List String :=
  ["Chr", "ChrB", "ChrW", "Asc", "End", "On", "Sub", "If", "Kill", "For", "Next", "Public",
    "Private", "Declare", "Function"]

/-! Names -/

def lexIdentifier : Pattern := lexeme (.word .letters .identifierChars)

def identifier : Pattern :=
  build .firstItem (absent (ref .reservedIdentifier) ++ lexIdentifier)

def foreignName : Pattern := lit "[" ++ restOfLine ++ lit "]"

def builtinType : Pattern :=
  keywords typeWords <|> (litDrop "[" ++ ref .reservedType ++ litDrop "]") <|> kw "object" <|>
    anyCase "[object]"

def typeSuffix : Pattern := lexeme (.sign (.listed ['%', '&', '^', '!', '#', '@', '$']))

def typedName : Pattern := joined (ref .identifier ++ typeSuffix)

/-- The suffixed form is tried first. -/
def entityName : Pattern := ref .typedName <|> ref .identifier

def unrestrictedName : Pattern := ref .entityName <|> ref .reservedIdentifier

def dotName : Pattern := joined (lit "." ++ lexIdentifier)

def nameWithMember : Pattern :=
  joined (ref .entityName ++ optional (lit "." ++ lexIdentifier)) ++ optional (anyCase "$")

/-- A name with at most one dot in it, possibly at the front. -/
def dottedName : Pattern :=
  joined ((absent (ref .reservedKeywords) ++ dotName) <|> nameWithMember)

def looseDottedName : Pattern := joined (dotName <|> nameWithMember)

/-! Literals -/

def booleanLiteral : Pattern := build .booleanLiteral (kw "True" <|> kw "False")

def integerSuffix : Pattern :=
  drop (optional (lexeme (.sign (.listed ['%', '&', '^']))))

def floatSuffix : Pattern :=
  drop (optional (anyCase "!" <|> anyCase "#" <|> anyCase "@"))

def decimalLiteral : Pattern :=
  build .decimal
    (joined (build .wholeNumbers (lexeme .signedDigits) ++ integerSuffix) ++ floatSuffix)

def octalLiteral : Pattern :=
  build .octal
    (joined (drop (lit "&" ++ optional (anyCase "o")) ++
      lexeme (.word .octalDigits .octalDigits) ++ integerSuffix))

def hexLiteral : Pattern :=
  build .hexadecimal
    (joined (drop (anyCase "&h") ++ lexeme (.word .hexDigits .hexDigits) ++ integerSuffix))

def integer : Pattern := ref .decimalLiteral <|> octalLiteral <|> hexLiteral

/-- Two decimal literals with a point between them. -/
def floatLiteral : Pattern :=
  build .fraction
    (ref .decimalLiteral ++ drop (anyCase ".") ++ ref .decimalLiteral ++ floatSuffix)

def quotedString : Pattern := build .firstItem (lexeme (.quoted '"' true true))

def rawQuotedString : Pattern := build .firstItem (lexeme (.quoted '"' true false))

def dateString : Pattern := build .firstItem (lexeme (.quoted '#' false true))

def literal : Pattern :=
  build .firstItem
    (booleanLiteral <|> integer <|> quotedString <|> dateString <|> ref .floatLiteral)

end VbaTrace.Grammar.Pattern
