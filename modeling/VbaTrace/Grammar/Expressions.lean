import VbaTrace.Grammar.Lexical

/-!
Expressions. Operators form ladders: level `k + 1` of a ladder is a chain of its operator over level
`k`, and level `0` holds the items and the parenthesised expressions of that ladder.
-/

set_option autoImplicit false

namespace VbaTrace.Grammar

namespace Pattern

def filePointer : Pattern :=
  build .filePointer (litDrop "#" ++ (ref .decimalLiteral <|> lexIdentifier))

def chrWords : List String := ["Chr$", "Chr", "ChrB$", "ChrB", "ChrW$", "ChrW"]

def chrCall : Pattern :=
  build .chr
    (drop (joined (keywords chrWords)) ++ litDrop "(" ++ ref .expression ++ litDrop ")")

def ascCall : Pattern :=
  build .asc (drop ((kw "Asc" <|> kw "AscW") ++ lit "(") ++ ref .expression ++ litDrop ")")

def strReverseCall : Pattern :=
  build .strReverse (drop (anyCase "StrReverse" ++ lit "(") ++ ref .expression ++ litDrop ")")

def environCall : Pattern :=
  build .environ
    (drop (kw "Environ" ++ lit "(") ++ label "arg" .first (ref .expression) ++ litDrop ")")

def byValue : Pattern := optional (kwDrop "ByVal")

def simpleName : Pattern :=
  build .simpleName (byValue ++ label "name" .first (ref .dottedName))

def instanceExpression : Pattern := build .me (kwDrop "Me")

/-- A name that may stand between square brackets. -/
def memberObjectLimited : Pattern :=
  drop (optional (lit "[")) ++ ref .unrestrictedName ++ drop (optional (lit "]"))

def memberObject : Pattern := ref .callLimited <|> memberObjectLimited

def memberAccess : Pattern :=
  build .member
    (group (group
      (label "lhs" .whole (ref .memberObject) ++
        atLeastOne (litDrop "." ++ label "rhs" .whole (ref .memberObject)))))

/-- At most two members after the object. -/
def memberAccessLimited : Pattern :=
  build .member
    (group (group
      (label "lhs" .whole (ref .memberObject) ++ litDrop "." ++
        label "rhs" .whole memberObjectLimited ++
        optional (litDrop "." ++ label "rhs1" .whole memberObjectLimited))))

def procedurePointer : Pattern := ref .memberAccess <|> ref .simpleName

def addressOf : Pattern := kwDrop "addressof" ++ ref .procedurePointer

def argumentExpression : Pattern :=
  (optional (kw "byval") ++ ref .expression) <|> ref .addressOf

def namedArgument : Pattern :=
  ref .unrestrictedName ++ litDrop ":=" ++ ref .argumentExpression

def namedArguments : Pattern := delimited (ref .namedArgument)

def positionalArgument : Pattern := optional (ref .argumentExpression)

def positionalOrNamed : Pattern :=
  optional (delimited positionalArgument ++ lit ",") ++
    (ref .namedArguments <|> ref .argumentExpression)

def argumentList : Pattern := optional (ref .positionalOrNamed)

def indexExpression : Pattern :=
  ref .simpleName ++ litDrop "(" ++ ref .simpleName ++ litDrop ")"

def dictionaryAccess : Pattern := ref .lExpression ++ litDrop "!" ++ ref .unrestrictedName

def withMember : Pattern :=
  litDrop "." ++ longest (ref .unrestrictedName) (ref .callLimited)

def withDictionary : Pattern := litDrop "!" ++ ref .unrestrictedName

def withExpression : Pattern := ref .withMember <|> ref .withDictionary

def newExpression : Pattern :=
  build .new (kwDrop "New" ++ label "expression" .first (ref .expression))

def lExpression : Pattern :=
  longest (longest (ref .withExpression) (ref .memberAccess)) (ref .newExpression)

def exprListItem : Pattern := longest (ref .expression) (ref .booleanExpression)

/-- Arguments after the first may be left out. -/
def exprList : Pattern :=
  ref .exprListItem ++
    optional (litDrop "," ++ delimited (orBlank (ref .exprListItem)))

def callArguments : Pattern :=
  litDrop "(" ++ optional (label "params" .whole (ref .exprList)) ++ litDrop ")"

def functionCall : Pattern :=
  build .call
    (kw "nothing" <|>
      (absent (ref .reservedKeywords) ++
        longest (label "name" .first (ref .memberAccessLimited))
          (label "name" .first lexIdentifier) ++
        drop (optional (lit "$")) ++ callArguments))

def callLimited : Pattern :=
  build .call
    (kw "nothing" <|>
      (absent (ref .reservedKeywords) ++ label "name" .first lexIdentifier ++
        drop (optional (lit "$")) ++ callArguments))

def callElement : Pattern :=
  build .element
    (label "array" .first (ref .functionCall) ++ litDrop "(" ++
      label "index" .first (ref .expression) ++ litDrop ")")

def exprItem : Pattern :=
  byValue ++
    (ref .floatLiteral <|> ref .lExpression <|>
      longest (longest (ref .chrCall) (ref .functionCall)) (ref .callElement) <|>
      ref .simpleName <|> ref .ascCall <|> ref .strReverseCall <|> ref .literal <|>
      ref .filePointer)

def chrConst : Pattern :=
  build .chr
    (drop
      (joined (anyCase "Chr" ++ optional (lexeme (.loneSign (.listed ['B', 'b', 'W', 'w']))) ++
        optional (lit "$")) ++ lit "(") ++
      ref .exprConst ++ litDrop ")")

def ascConst : Pattern :=
  build .asc (drop (kw "Asc" ++ lit "(") ++ ref .exprConst ++ litDrop ")")

def strReverseConst : Pattern :=
  build .strReverse (drop (anyCase "StrReverse" ++ lit "(") ++ ref .exprConst ++ litDrop ")")

def environConst : Pattern :=
  build .environ (drop (kw "Environ" ++ lit "(") ++ ref .exprConst ++ litDrop ")")

def exprConstItem : Pattern :=
  ref .chrConst <|> ref .ascConst <|> ref .strReverseConst <|> ref .environConst <|> ref .literal

def comparisonSigns : List String := [">=", "<=", "<>", "=", ">", "<", "<>"]

def boolExprItem : Pattern :=
  build .comparison
    ((ref .limitedExpression ++ keywords comparisonSigns ++ ref .limitedExpression) <|>
      ref .limitedExpression)

end Pattern

namespace Ladder

/-- What level `0` of a ladder holds besides parentheses. -/
def item : Ladder → Rule
  | full | limited => .exprItem
  | constant => .exprConstItem
  | boolean => .boolExprItem

/-- One rung: the sign of the operator, whether it groups to the right, and what it builds. -/
structure Rung where
  sign : Pattern
  toRight : Bool
  builder : Option Builder

def arithmetic : List Rung :=
  [⟨Pattern.lit "*", false, some (.operation .multiply)⟩,
    ⟨Pattern.lit "/", false, some (.operation .divide)⟩,
    ⟨Pattern.lit "\\", false, some (.operation .floorDivide)⟩,
    ⟨Pattern.kw "mod", true, some (.operation .modulo)⟩,
    ⟨Pattern.lit "-", false, some (.operation .subtract)⟩,
    ⟨Pattern.lit "+", false, some (.operation .add)⟩,
    ⟨Pattern.lit "&", false, some (.operation .concatenate)⟩,
    ⟨Pattern.kw "xor", false, some (.operation .xor)⟩]

/-- The rungs of a ladder above its items, tightest first; negation, which comes first in the boolean
ladder, is not a binary operator and stands apart. -/
def rungs : Ladder → List Rung
  | full => arithmetic ++
    [⟨Pattern.kw "and", false, some (.operation .and)⟩,
      ⟨Pattern.kw "or", false, some (.operation .or)⟩,
      ⟨Pattern.kw "eqv", false, some (.operation .eqv)⟩]
  | limited => arithmetic
  | constant =>
    [⟨Pattern.lit "+", false, some (.operation .add)⟩,
      ⟨Pattern.lit "&", false, some (.operation .concatenate)⟩]
  | boolean =>
    [⟨Pattern.kw "And", false, none⟩, ⟨Pattern.kw "AndAlso", false, none⟩,
      ⟨Pattern.kw "Or", false, none⟩, ⟨Pattern.kw "OrElse", false, none⟩,
      ⟨Pattern.kw "Eqv", false, none⟩]

/-- The number of the top level. -/
def height : Ladder → Nat
  | full => 11 | limited => 8 | constant => 2 | boolean => 6

/-- The pattern of a level. -/
def pattern (l : Ladder) : Nat → Pattern
  | 0 =>
    Pattern.ref l.item <|>
      (Pattern.litDrop "(" ++ Pattern.ref (.level l l.height) ++ Pattern.litDrop ")")
  | k + 1 =>
    let below := Pattern.ref (.level l k)
    let here := Pattern.ref (.level l (k + 1))
    let binary := fun i ↦
      match l.rungs[i]? with
      | some r => .chain below r.sign (if r.toRight then here else below) r.builder
      | none => below
    if l == boolean then
      match k with
      | 0 => .group (Pattern.kw "Not" ++ here) <|> below
      | j + 1 => binary j
    else binary k

end Ladder

namespace Pattern

def top (l : Ladder) : Pattern := ref (.level l l.height)

def expression : Pattern := build .firstItem (top .full)

def limitedExpression : Pattern := top .limited

def exprConst : Pattern := top .constant

def booleanExpression : Pattern := build .condition (top .boolean)

end Pattern

end VbaTrace.Grammar
