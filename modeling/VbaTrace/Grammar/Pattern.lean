import VbaTrace.Fault
import VbaTrace.Grammar.Lexeme
import VbaTrace.Grammar.Rule
import VbaTrace.Syntax.Node

/-!
Patterns: what a rule matches and which tokens it yields. A pattern is plain data; `Pattern.run` in
`VbaTrace.Grammar.Run` gives it its meaning.
-/

set_option autoImplicit false

namespace VbaTrace.Grammar

/-- What a matched rule turns its tokens into. -/
inductive Builder
  -- literals
  | firstItem | oneSpace | wholeNumbers | booleanLiteral | decimal | octal | hexadecimal | fraction
  | filePointer
  -- expressions
  | chr | asc | strReverse | environ | simpleName | me | member | call | element
  | operation (op : Operator) | comparison | condition | new
  -- declarations and statements
  | unknown | attributeLine | optionLine | parameter | dim | globalVar | external | assign
  | property | forLoop | forEach | whileLoop | doLoop | selectClause | caseClause | selectCase
  | select | conditional | directive | callStatement | exitFor | exitDo | exitProcedure | redim
  | withBlock | goto | label | onError | openFile | print
  -- procedures and modules
  | sub | function | codeModule
deriving DecidableEq, Repr

/-- Which part of the tokens a label names. -/
inductive Extent
  /-- The first token. -/
  | first
  /-- All tokens, as one list without the labels inside. -/
  | whole
deriving DecidableEq, Repr

inductive Pattern
  | lexeme (l : Lexeme)
  | rule (r : Rule)
  /-- One after the other. -/
  | seq (a b : Pattern)
  /-- The first that matches. -/
  | first (a b : Pattern)
  /-- The one that reaches further, the left one of two equals. -/
  | longest (a b : Pattern)
  | optional (p : Pattern)
  /-- A match, or else the empty text as token. -/
  | orBlank (p : Pattern)
  /-- Any number of matches. -/
  | many (p : Pattern)
  /-- One or more matches. -/
  | atLeastOne (p : Pattern)
  /-- No match here; nothing is consumed. -/
  | absent (p : Pattern)
  /-- A match here; only the blanks before it are consumed. -/
  | ahead (p : Pattern)
  /-- Everything up to the next match. -/
  | upTo (p : Pattern)
  /-- The tokens as one token list. -/
  | group (p : Pattern)
  /-- No tokens. -/
  | drop (p : Pattern)
  /-- The tokens joined to one text, with no blanks allowed between them. -/
  | joined (p : Pattern)
  /-- The tokens joined to one text. -/
  | joinedLoosely (p : Pattern)
  /-- No blanks are passed over, inside or before. -/
  | tight (p : Pattern)
  | label (name : String) (extent : Extent) (p : Pattern)
  | build (b : Builder) (p : Pattern)
  /-- An operand, followed by any number of operators with an operand each; with at least one
  operator all tokens form one list that the builder gets. -/
  | chain (operand op right : Pattern) (b : Option Builder)

instance : Append Pattern := ⟨Pattern.seq⟩
instance : OrElse Pattern := ⟨fun a b ↦ .first a (b ())⟩

namespace Pattern

def lit (s : String) : Pattern := .lexeme (.exact s.toList)

def anyCase (s : String) : Pattern := .lexeme (.caseless s.toList)

def kw (s : String) : Pattern := .lexeme (.keyword s.toList)

/-- A keyword or sign that leaves no token. -/
def kwDrop (s : String) : Pattern := .drop (kw s)

def litDrop (s : String) : Pattern := .drop (lit s)

/-- The first of several keywords. -/
def keywords : List String → Pattern
  | [] => .absent (.lexeme .nothing)
  | [s] => kw s
  | s :: ss => .first (kw s) (keywords ss)

/-- One or more, divided by a sign that leaves no token. -/
def delimited (p : Pattern) : Pattern :=
  p ++ .many (litDrop "," ++ p)

end Pattern

/-- How the blanks before an element are treated: which they are, whether the element passes over
them, and whether it does so itself rather than leaving it to its alternatives. -/
structure Lead where
  blanks : Blanks
  skips : Bool
  own : Bool
deriving DecidableEq, Repr

namespace Lead

def usual : Lead := ⟨.inline, true, true⟩

/-- A choice passes over no blanks of its own. -/
def choice : Lead := ⟨.inline, true, false⟩

end Lead

namespace Rule

/-- How a rule treats the blanks before it. -/
def lead : Rule → Lead
  -- a number may stand on the next line
  | decimalLiteral | floatLiteral => ⟨.breaking, true, true⟩
  -- blanks count, or are left to what follows an exclusion
  | identifier | unknownStatement | callStatement | labelStatement | untypedParameter
  | untypedVariable | whitespaces | lineContinuation | extendedLine | nonLineTerminator
  | nonTerminatedLine | sourceLine | physicalLines => ⟨.inline, false, true⟩
  | lineTerminator | commentBody | endOfStatement | statementKeyword | markerKeyword
  | operatorIdentifier | reservedName | specialForm | reservedType | booleanWord | variantWord
  | literalWord | implementationReserved | futureReserved | reservedIdentifier | reservedKeywords
  | builtinType | entityName | unrestrictedName | booleanLiteral | integer | literal | memberObject
  | procedurePointer | argumentExpression | withExpression | exprListItem | exprConstItem
  | boolExprItem | keywordStart | parameterMechanism | optionalParam | statementLabel
  | blockStatement | stringLength | typeSpec | asClause | whileType | ifStatement | callParams
  | exitLoopStatement | exitProcedureStatement | simpleStatement | procedureScope | lifecycleName
  | procedureName | functionName | procedureTail | headerLine | moduleHeader | declarationStatement
  | moduleCode | positionalArgument | anyLine => Lead.choice
  | _ => Lead.usual

end Rule

/-- How a pattern treats the blanks before it. -/
def Pattern.lead : Pattern → Lead
  | lexeme l =>
    match l.blanks with
    | some b => ⟨b, true, true⟩
    | none => ⟨.inline, false, true⟩
  | rule r => r.lead
  | seq a _ => { a.lead with own := true }
  | first _ _ | longest _ _ | chain _ _ _ _ => Lead.choice
  | absent p => { p.lead with skips := false }
  | joined p | joinedLoosely p => { p.lead with skips := true, own := true }
  | tight p => { p.lead with skips := false }
  | optional p | orBlank p | many p | atLeastOne p | ahead p | upTo p | group p | drop p | label _ _ p
  | build _ p => p.lead

end VbaTrace.Grammar
