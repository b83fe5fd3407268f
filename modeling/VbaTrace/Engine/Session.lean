import VbaTrace.Engine.Basic

/-!
A session with an engine: its steps read and run code, call procedures and routines, and set what the
program finds in its environment.
-/

set_option autoImplicit false

namespace VbaTrace

namespace Machine

/-- The value of a constant is the usual one. -/
def isUsualConstant (h : Heap) (entry : String × Value) : Bool :=
  (globalConstants.find? entry.1).any fun v ↦ v.equals (h.resolve entry.2)

/-- The global names, without the constants that have their usual values. -/
def ownGlobals (m : Machine) : List (String × Value) :=
  m.globals.entries.filter fun e ↦ !isUsualConstant m.heap e

end Machine

namespace Engine

/-- Sets a global name as it is. -/
def setGlobal (name : String) (v : Value) : Command Unit :=
  evaluation do
    let v ← share v
    modify fun m ↦ { m with globals := m.globals.put name v }

/-- Sets a local name as it is. -/
def setLocal (name : String) (v : Value) : Command Unit :=
  evaluation do
    let v ← share v
    modifyFrame fun fr ↦ { fr with locals := fr.locals.put name v }

def setProperties (properties : Option (Table Value)) : Command Unit :=
  evaluation do
    let properties ←
      match properties with
      | none => pure none
      | some t => do
        let entries ← t.entries.mapM fun e ↦ do return (e.1, ← share e.2)
        pure (some (Table.mk entries))
    modify fun m ↦ { m with properties := properties, itemProperties := properties }

def setLoopBound (n : Int) : Command Unit :=
  evaluation (modify fun m ↦ { m with loopBound := n })

/-- The first token of a text. -/
def readFirst (r : Grammar.Rule) (all : Bool) (text : String) : Command Value := do
  match (← read r all text).items with
  | v :: _ => return v
  | [] => throw .outOfRange

/-- The value of an operand. -/
def operand (v : Value) : Command Value :=
  evaluation (Semantics.evalOperand Semantics.run v)

/-- Evaluates a value with arguments. -/
def call (v : Value) (args : Arguments) : Command Value :=
  evaluation (Semantics.run v args)

/-- Calls what a name stands for. -/
def callNamed (name : Value) (args : Arguments) : Command Value :=
  evaluation do Semantics.run (← fetch name) args

/-- Calls a routine of the library by its key, or gives a constant of it. -/
def callLibrary (key : String) (args : Arguments) : Command Value :=
  match Library.entry? key with
  | some (.routine r) => call (.routine r) args
  | some v => return v
  | none => throw .missingEntry

/-- Reads lines of statements and evaluates them in order. -/
def execute (code : String) : Command Unit := do
  let t ← read .statementLines true (code ++ "\n")
  for v in t.items do
    let _ ← call v none

end Engine

end VbaTrace
