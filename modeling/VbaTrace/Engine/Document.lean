import VbaTrace.Engine.Macros
import VbaTrace.Report.Actions

/-!
Documents in the form of plain text, which hold one macro.
-/

set_option autoImplicit false

namespace VbaTrace

structure Document where
  name : String
  text : String

namespace Document

/-- Binary data and rich text hold no macros in the form of text. -/
def isText (d : Document) : Bool :=
  !d.text.toList.contains (Char.ofNat 0) && !Text.startsWith "\x7b\\rt" d.text

/-- The directory for files that the document's macros drop. -/
def dropDirectory (d : Document) : String :=
  let name := Text.afterLast "/" (d.name ++ "_artifacts")
  "./" ++ Text.trimmed (Text.replace "." "" name) ++ "/"

/-- The one macro of a document. -/
def sourceMacro (d : Document) : SourceMacro :=
  { file := d.name, stream := "", name := d.name, code := d.text }

end Document

namespace Engine

/-- An engine for the next document; what was printed and dropped stays. -/
def renew : Command Unit :=
  modify fun e ↦
    { printed := e.printed
      machine := { dropped := e.machine.dropped, placeOf := e.machine.placeOf } }

def printActions : Command Unit := do
  printLine "Recorded Actions:"
  printLine (← evaluation Report.actionGrid)

/-- Reads and traces a document; nothing is returned when its macro cannot be read. -/
def traceText (strip : Bool) (d : Document) : Command (Option (Array Action)) := do
  if !d.isText then throw .wrongValue
  printLine "Type: Text"
  evaluation (modify fun m ↦
    { m with properties := some {}, dropDirectory := some d.dropDirectory })
  match ← readMacros strip [d.sourceMacro] with
  | none => return none
  | some readings =>
    readings.forM loadReading
    printLine (ruler '-')
    printLine "TRACING VBA CODE (entrypoint = Auto*):"
    trace
    printActions
    printLine ""
    return some (← get).machine.actions

def printFileName (name : String) : Command Unit := do
  printLine (ruler '=')
  printLine ("FILE: " ++ name)

/-- Traces a document with more entry points than the usual ones. A failure gives no result, unless
it is an exit. -/
def traceDocument (strip : Bool) (entryPoints : List String) (d : Document) :
    Command (Option (Array Action)) := do
  renew
  printFileName d.name
  modify fun e ↦ { e with entryPoints := e.entryPoints ++ entryPoints }
  tryCatch (traceText strip d) fun f ↦ if f.isOrdinary then return none else throw f

end Engine

end VbaTrace
