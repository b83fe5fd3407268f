import VbaTrace.Fault
import VbaTrace.Syntax.Node
import VbaTrace.Table
import VbaTrace.Text.Search

/-!
Named loggers. Names are made of parts between dots, and a name makes those of its ancestors known.
A logger gets a handler, which drops its messages, when its name is asked for and was not known.
-/

set_option autoImplicit false

namespace VbaTrace

structure Logger where
  name : String
  level : Int := 0
  /-- How many handlers it has. -/
  handlers : Nat := 0
deriving DecidableEq, Repr

/-- The known names; an ancestor that was not asked for has no logger yet. -/
structure Loggers where
  known : Table (Option Logger) := {}
  root : Logger := { name := "root" }

namespace Loggers

/-- The logger of the program itself is there from the start. -/
def initial : Loggers :=
  { known := ⟨[("VMonkey", some { name := "VMonkey", handlers := 1 })]⟩ }

/-- The ancestors of a name, the nearest first. Of two dots in a row only the second counts. -/
def ancestorsWithin : Nat → List Char → List (List Char)
  | 0, _ => []
  | n + 1, cs =>
    match Text.findLast? ['.'] cs with
    | some (i + 1) => cs.take (i + 1) :: ancestorsWithin n (cs.take i)
    | _ => []

def ancestors (name : String) : List String :=
  (ancestorsWithin name.length name.toList).map String.ofList

/-- Makes ancestors known, up to the first that has a logger. -/
def addAncestors (known : Table (Option Logger)) : List String → Table (Option Logger)
  | [] => known
  | name :: names =>
    match known.find? name with
    | some (some _) => known
    | some none => addAncestors known names
    | none => addAncestors (known.put name none) names

/-- Levels by name. -/
def namedLevels : List (String × Int) :=
  [("CRITICAL", 50), ("FATAL", 50), ("ERROR", 40), ("WARN", 30), ("WARNING", 30), ("INFO", 20),
    ("DEBUG", 10), ("NOTSET", 0)]

/-- A level is a number or the name of one. -/
def levelOf : Value → Except Fault Int
  | .int n => .ok n
  | .bool b => .ok b.toInt
  | .text s =>
    match namedLevels.find? fun e ↦ e.1 == s with
    | some e => .ok e.2
    | none => .error .wrongValue
  | _ => .error .wrongType

/-- The logger of a name, with its level set. The empty name is that of the root. -/
def get (ls : Loggers) (name : String) (level : Int) : Logger × Loggers :=
  if name.isEmpty || name == ls.root.name then
    let root := { ls.root with level := level, handlers := ls.root.handlers + 1 }
    (root, { ls with root := root })
  else
    let logger :=
      match ls.known.find? name with
      | some (some l) => { l with level := level }
      | some none => { name := name, level := level }
      | none => { name := name, level := level, handlers := 1 }
    (logger, { ls with known := addAncestors (ls.known.put name (some logger)) (ancestors name) })

end Loggers

end VbaTrace
