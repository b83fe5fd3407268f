import VbaTrace.Engine.Basic

/-!
Reading a module line by line. The first words of a line tell which rule reads it; the start of a
procedure or of a counting loop takes the lines up to its end as its body. A line that does not match
is shown and left out. A module that ends inside a block, or in which nothing follows the word that
makes a declaration public or private, fails as a whole.
-/

set_option autoImplicit false

namespace VbaTrace.Engine

/-- The kinds of lines outside blocks. -/
inductive LineKind
  | header
  | declaration
  | sub
  | function
  | loop
  | other
deriving DecidableEq, Repr

namespace LineKind

/-- The kind of a line that starts with a word. -/
def ofWord (word : String) : LineKind :=
  match word with
  | "attribute" => header
  | "option" | "dim" | "declare" => declaration
  | "sub" => sub
  | "function" => function
  | "for" => loop
  | _ => other

def rule : LineKind → Grammar.Rule
  | header => .headerLine
  | declaration => .declarationLine
  | sub => .subStartLine
  | function => .functionStartLine
  | loop => .forStart
  | other => .anyLine

/-- More code may follow the start of a loop on its line. -/
def readsWholeLine : LineKind → Bool
  | loop => false
  | _ => true

/-- The words of the line that ends the block, for kinds that start one. -/
def blockEnd? : LineKind → Option (List String)
  | sub => some ["end", "sub"]
  | function => some ["end", "function"]
  | loop => some ["next"]
  | _ => none

end LineKind

/-- The words of a line in lower case; none for empty lines and comments. -/
def lineWords (line : String) : List String :=
  let words := (Text.words (Text.lower line).toList).map String.ofList
  if words.head?.any (Text.startsWith "'") then [] else words

/-- The kind of a line by its words, without the one that makes it public or private. -/
def lineKind (words : List String) : Except Fault LineKind :=
  let words := if words.head?.any ["public", "private"].contains then words.tail else words
  match words with
  | [] => .error .outOfRange
  | word :: _ => .ok (.ofWord word)

/-- The statements of the lines of a block. -/
def readBlock (lines : List String) : Command (List Value) := do
  let parts ← lines.mapM fun line ↦ readOrShow "*** PARSING ERROR (3) ***\n" .anyLine true line
  return parts.flatMap fun t ↦ (t.map Tokens.items).getD []

/-- The node that starts a block, with the statements of the block as its body. -/
def withBody (statements : List Value) : Value → Value
  | .node (.sub name params _ trailing) => .node (.sub name params (.list statements) trailing)
  | .node (.function name params _ returns trailing) =>
    .node (.function name params (.list statements) returns trailing)
  | .node (.forLoop name start stop step _) =>
    .node (.forLoop name start stop step (.list statements))
  | v => v

/-- The tokens that start a block, with the body put into the first one. -/
def startBlock (statements : List Value) : List Value → List Value
  | [] => []
  | v :: vs => withBody statements v :: vs

/-- The lines before the one that ends a block. -/
def linesBefore (blockEnd : List String) (lines : List String) : List String :=
  lines.takeWhile fun line ↦ !blockEnd.isPrefixOf (lineWords line)

/-- The tokens of the lines of a module. -/
def readLines : List String → Command (List Value)
  | [] => return []
  | line :: lines => do
    let words := lineWords line
    if words.isEmpty then readLines lines
    else
      let kind ← ofExcept (lineKind words)
      match ← readOrShow "*** PARSING ERROR (2) ***\n" kind.rule kind.readsWholeLine line with
      | none => readLines lines
      | some t =>
        match kind.blockEnd? with
        | none => return t.items ++ (← readLines lines)
        | some blockEnd =>
          let body := linesBefore blockEnd lines
          let statements ← readBlock body
          let rest := lines.drop body.length
          if rest.isEmpty then throw .outOfRange
          return startBlock statements t.items ++ (← readLines rest.tail)
termination_by lines => lines.length
decreasing_by
  all_goals simp only [List.length_cons, List.length_tail, List.length_drop]
  all_goals omega

/-- Reads a module line by line and loads its procedures. -/
def loadModuleByLines (code : String) : Command Unit := do
  let code ← ofExcept (Source.collapse code)
  let tokens ← readLines ((Text.lines code.toList).map String.ofList)
  match Grammar.buildModule (.ofList tokens) with
  | .values (.node n :: _) => do
    printLine n.render
    addModule true n
  | _ => return ()

end VbaTrace.Engine
