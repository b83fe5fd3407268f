/-!
The ways in which reading or running a program can fail.
-/

set_option autoImplicit false

namespace VbaTrace

/-- The kinds of values. Of the nodes, those that name an object are told apart. -/
inductive Kind
  | null | bool | int | float | text | list | tokens | name | member | call | node | routine
deriving DecidableEq, Repr

/-- What the values of a kind are called in messages. -/
def Kind.className : Kind → String
  | null => "NoneType"
  | bool => "bool"
  | int => "int"
  | float => "float"
  | text => "str"
  | list => "list"
  | tokens => "pyparsing.ParseResults"
  | name => "expressions.SimpleNameExpression"
  | member => "expressions.MemberAccessExpression"
  | call => "expressions.Function_Call"
  | node | routine => "object"

/-- The cause of a failure. -/
inductive Fault
  /-- An operand or argument of the wrong kind. -/
  | wrongType
  /-- The argument of `Chr` is neither a number nor a text; its kind is told. -/
  | wrongCharacter (kind : Kind)
  /-- A value outside the accepted set. -/
  | wrongValue
  /-- A position beyond the end. -/
  | outOfRange
  /-- No variable, procedure or routine has this (lower-case) name; the name is quoted. -/
  | unknownName (quotedName : String)
  /-- A table has no such entry. -/
  | missingEntry
  /-- The value cannot be evaluated, or lacks what is asked of it. -/
  | noMember
  | failedAssertion
  | divisionByZero
  | overflow
  | unsupported
  /-- The text does not match the rule; `endAt` tells where the rest begins when a part did. -/
  | noMatch (endAt : Option Nat)
  | badEncoding
  | missingFile
  | notArchive
  | exit
  /-- Nesting deeper than the bound on depth. -/
  | tooDeep
deriving DecidableEq, Repr

namespace Fault

/-- The message of a fault, for the kinds of faults whose messages tell more than their kind. -/
def message? : Fault → Option String
  | wrongCharacter kind =>
    some ("Chr: parameter must be an integer or a string, not <class '" ++ kind.className ++ "'>")
  | unknownName quotedName => some ("Object " ++ quotedName ++ " not found")
  | _ => none

/-- A name, or an entry of a table, was not found. -/
def isMissing : Fault → Bool
  | unknownName _ | missingEntry => true
  | _ => false

def isWrongType : Fault → Bool
  | wrongType | wrongCharacter _ => true
  | _ => false

/-- A value was refused; a badly encoded text counts. -/
def isWrongValue : Fault → Bool
  | wrongValue | badEncoding => true
  | _ => false

/-- Something has no evaluation, or nests too deep for one. -/
def isUnsupported : Fault → Bool
  | unsupported | tooDeep => true
  | _ => false

/-- An exit is not an ordinary failure, and handlers of failures let it pass. -/
def isOrdinary : Fault → Bool
  | exit => false
  | _ => true

end Fault

end VbaTrace
