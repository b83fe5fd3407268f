import VbaTrace.Engine.Basic
import VbaTrace.Source.Unused

/-!
The macros of a document. Each one is cleaned of continued lines and of its hidden header, shown, and
read as a module.
-/

set_option autoImplicit false

namespace VbaTrace

/-- The code of a macro and where it was found. -/
structure SourceMacro where
  file : String
  stream : String
  name : String
  code : String

/-- What reading a macro gives. -/
inductive MacroReading
  /-- There is no code. -/
  | empty
  /-- The code is no module. -/
  | unread
  | read (n : Node)

namespace Engine

/-- A line across the page. -/
def ruler (c : Char) : String :=
  String.ofList (List.replicate 79 c)

def dottedRuler : String :=
  String.join (List.replicate 39 "- ")

/-- The code of a macro as it is read. -/
def cleanCode (strip : Bool) (code : String) : Except Fault String := do
  let code := Source.withoutHeader (← Source.collapse code)
  return if strip then Source.withoutUnused code else code

/-- Shows a macro and reads it. -/
def readMacro (strip : Bool) (m : SourceMacro) : Command MacroReading := do
  let code ← ofExcept (cleanCode strip m.code)
  printLine (ruler '-')
  printLine ("VBA MACRO " ++ m.name ++ " ")
  printLine ("in file: " ++ m.file ++ " - OLE stream: " ++ Text.quoted m.stream)
  printLine dottedRuler
  if (Text.trim code.toList).isEmpty then
    printLine "(empty macro)"
    return .empty
  else
    printLine (ruler '-')
    printLine "VBA CODE (with long lines collapsed):"
    printLine code
    printLine (ruler '-')
    printLine "PARSING VBA CODE:"
    match ← readOrShow "" .codeModule true (code ++ "\n") with
    | none =>
      printLine "Parse Error. Processing Aborted."
      return .unread
    | some t =>
      match t.items with
      | .node n :: _ => return .read n
      | _ => throw .outOfRange

/-- Reads macros in order; the first one that cannot be read ends it without a result. -/
def readMacros (strip : Bool) : List SourceMacro → Command (Option (List MacroReading))
  | [] => return some []
  | m :: ms => do
    match ← readMacro strip m with
    | .unread => return none
    | reading => return (← readMacros strip ms).map (reading :: ·)

/-- Loads what was read, if there is a module in it. -/
def loadReading : MacroReading → Command Unit
  | .read n => addModule false n
  | _ => return ()

end Engine

end VbaTrace
