import VbaTrace.CommandLine.Tracer

/-!
The interactive command: modules are entered, traced, and asked for the values of expressions. A
command that fails is left and the next one is read; an exit ends the session.
-/

set_option autoImplicit false

namespace VbaTrace.CommandLine.Shell

def program : String := "vbashell"

def switches : List Switch :=
  [{ short := 'p', long? := "parse", value? := "PARSE_FILE", help := "VBA text file to be parsed" },
    { short := 'e', long? := "eval", value? := "EVAL_EXPR"
      help := "VBA expression to be evaluated" },
    levelSwitch]

/-- A text with a line feed for every line end. -/
def normalizeLines (text : String) : String :=
  Text.replace "\r" "\n" (Text.replace "\r\n" "\n" text)

def loadFile (files : Files) (name : String) : Command Unit := do
  Engine.printLine ("Parsing file " ++ Text.quoted name)
  match files.find? name with
  | some text => Engine.loadModule (normalizeLines text)
  | none => throw .missingFile

def showValue (expression : String) : Command Unit := do
  Engine.printLine ("Evaluating " ++ expression)
  let v ← Engine.evaluateText expression
  Engine.printLine ("Returned value: " ++ (← Engine.evaluation (displayed v)))
  Engine.printActions

/-- Traces all entry points; the name that is asked for is only shown. -/
def traceAll (command : String) : Command Unit := do
  match Text.words command.toList with
  | _ :: name :: _ =>
    Engine.printLine ("Tracing " ++ String.ofList name)
    Engine.trace
    Engine.printActions
  | _ => throw .outOfRange

/-- Goes on after a failure that is not an exit. -/
def forgiving (c : Command Unit) : Command Unit :=
  tryCatch c fun f ↦ if f.isOrdinary then return () else throw f

/-- A command on one line. -/
def perform (command : String) : Command Unit :=
  if Text.startsWith "trace" command then traceAll command
  else if Text.startsWith "eval" command then
    showValue (String.ofList (command.toList.drop 5))
  else return ()

/-- The code that is entered: the lines up to a single dot. -/
def enteredLines (lines : List String) : List String :=
  lines.takeWhile (· != ".")

/-- Carries out the commands on the lines of the input. -/
def converse : List String → Command Unit
  | [] => return ()
  | line :: lines => do
    Engine.print "VBA> "
    if Text.startsWith "exit" line then return ()
    else if Text.startsWith "parse" line then
      let entered := enteredLines lines
      Engine.printLine "Enter VBA code, end by a line containing only \".\":"
      forgiving (Engine.loadModule (String.join (entered.map (· ++ "\n"))))
      converse (lines.drop (entered.length + 1))
    else
      forgiving (perform line)
      converse lines
termination_by lines => lines.length
decreasing_by
  all_goals simp only [List.length_cons, List.length_drop]
  all_goals omega

/-- The value of a switch, unless it is empty. -/
def setting? (i : Invocation) (key : String) : Option String :=
  (i.settings.find? key).filter fun value ↦ !value.isEmpty

/-- The files that the arguments name. -/
def fileNames (arguments : List String) : List String :=
  match parse switches arguments with
  | .ok i => (setting? i "p").toList
  | .error _ => []

/-- Runs the command on its arguments and the lines of its input. -/
def run (arguments : List String) (files : Files) (lines : List String) : Command Unit := do
  Engine.print (banner program "0.04")
  let i ← invoke program switches arguments
  checkLevel i
  if let some name := setting? i "p" then loadFile files name
  if let some expression := setting? i "e" then showValue expression
  converse lines

end VbaTrace.CommandLine.Shell
