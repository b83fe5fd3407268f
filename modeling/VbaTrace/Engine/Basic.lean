import VbaTrace.Semantics.Evaluate
import VbaTrace.Source.Collapse

/-!
The engine: a machine with the modules that were loaded into it, the names of the procedures that a
trace starts from, and what was printed. Commands change the engine, and may fail.
-/

set_option autoImplicit false

namespace VbaTrace

/-- The procedures that documents run on their own, in the order in which a trace tries them. -/
def automaticProcedures : List String :=
  ["autoopen", "document_open", "autoclose", "document_close", "auto_open", "autoexec", "autoexit",
    "document_beforeclose", "workbook_open", "workbook_activate", "auto_close", "workbook_close"]

structure Engine where
  machine : Machine := {}
  /-- The loaded modules, the latest first. -/
  modules : List Node := []
  entryPoints : List String := automaticProcedures
  printed : String := ""

abbrev Command := EStateM Fault Engine

namespace Engine

/-- An evaluation on the machine of the engine. -/
def evaluation {α : Type} (x : Eval α) : Command α := fun e ↦
  match x e.machine with
  | .ok a m => .ok a { e with machine := m }
  | .error f m => .error f { e with machine := m }

def print (s : String) : Command Unit :=
  modify fun e ↦ { e with printed := e.printed ++ s }

def printLine (s : String) : Command Unit :=
  print (s ++ "\n")

def ofExcept {α : Type} : Except Fault α → Command α
  | .ok a => pure a
  | .error f => throw f

/-- A new frame in place of the present one, as for a session within a session. -/
def renewFrame : Command Unit :=
  evaluation (modify fun m ↦ { m with frame := {}, globals := m.globals.install })

/-- The line of a text that holds a place. -/
def lineAround (cs : List Char) (place : Nat) : List Char :=
  let start := ((cs.take place).reverse.takeWhile (· != '\n')).reverse
  start ++ (cs.drop place).takeWhile (· != '\n')

/-- The column of a place, counted from one. -/
def columnOf (cs : List Char) (place : Nat) : Nat :=
  ((cs.take place).reverse.takeWhile (· != '\n')).length + 1

def lineNumberOf (cs : List Char) (place : Nat) : Nat :=
  ((cs.take place).filter (· == '\n')).length + 1

/-- What stands at a place, for a message. -/
def foundAt (cs : List Char) (place : Nat) : String :=
  if cs.isEmpty then ""
  else
    match cs.drop place with
    | [] => ", found end of text"
    | c :: _ => ", found " ++ Text.replace "\\\\" "\\" (Text.quoted (String.singleton c))

/-- The message that a text should have ended at a place. -/
def endMessage (cs : List Char) (place : Nat) : String :=
  "Expected end of text" ++ foundAt cs place ++ "  (at char " ++ Nat.repr place ++ "), (line:" ++
    Nat.repr (lineNumberOf cs place) ++ ", col:" ++ Nat.repr (columnOf cs place) ++ ")"

/-- Shows where the reading of a text ended: the line, a mark under the place, and a message. -/
def printUnread (text : String) (place : Nat) : Command Unit := do
  let cs := Text.expandTabs text.toList
  printLine (String.ofList (lineAround cs place))
  printLine (String.ofList (List.replicate (columnOf cs place - 1) ' ') ++ "^")
  printLine (endMessage cs place)

/-- Reads a whole text; what reading prints is printed. -/
def read (r : Grammar.Rule) (all : Bool) (text : String) : Command Tokens := do
  let (result, out) := Grammar.readEchoing r all text
  print out
  ofExcept result

/-- Reads a text; one that does not match is shown under a heading instead. -/
def readOrShow (heading : String) (r : Grammar.Rule) (all : Bool) (text : String) :
    Command (Option Tokens) := do
  let (result, out) := Grammar.readEchoing r all text
  print out
  match result with
  | .ok t => return some t
  | .error (.noMatch place) => do
    print heading
    printUnread text (place.getD 0)
    return none
  | .error f => throw f

def putGlobals (bs : List Binding) : Command Unit :=
  evaluation (modify fun m ↦
    { m with globals := bs.foldl (fun g b ↦ g.put (Text.lower b.name) b.value) m.globals })

/-- Loads a module: its procedures and, unless only procedures count, its variables become global
names. -/
def addModule (onlyProcedures : Bool) (n : Node) : Command Unit := do
  modify fun e ↦ { e with modules := n :: e.modules }
  match n with
  | .codeModule _ _ subs functions externals globalVars =>
    putGlobals subs
    putGlobals functions
    putGlobals externals
    if !onlyProcedures then putGlobals globalVars
  | _ => return ()

/-- Reads a module and loads it; a module that cannot be read is shown instead. -/
def loadModule (code : String) : Command Unit := do
  let code ← ofExcept (Source.collapse code)
  let tokens ← readOrShow "*** PARSING ERROR (1) ***\n" .codeModule true code
  match (tokens.getD .empty).items with
  | .node n :: _ => addModule false n
  | _ => return ()

/-- Forgets the recorded actions. -/
def clearActions : Eval Unit :=
  modify fun m ↦ { m with actions := #[] }

/-- Runs an entry point, if there is a global name for it. -/
def enter (name : String) : Eval Unit := do
  let key := Text.lower name
  match (← get).globals.find? key with
  | some v =>
    report (.text "Found Entry Point") (.text key) .empty
    let _ ← Semantics.run v none
  | none => return ()

/-- Runs all entry points in order. -/
def trace : Command Unit := do
  let names := (← get).entryPoints
  evaluation (inNewFrame do
    clearActions
    names.forM enter)

/-- Reads and evaluates an expression. -/
def evaluateText (text : String) : Command Value := do
  evaluation (modify fun m ↦ { m with globals := m.globals.install, actions := #[] })
  let t ← read .expression false text
  evaluation (inNewFrame (Semantics.run (t.items.headD .null) none))

end Engine

end VbaTrace
