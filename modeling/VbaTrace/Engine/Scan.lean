import VbaTrace.Engine.Basic

/-!
Scanning a text for constant expressions.
-/

set_option autoImplicit false

namespace VbaTrace.Engine

/-- An expression that was found, and its value. -/
structure Finding where
  expression : Node
  value : Value

/-- The expression among the tokens of a match, if it is more than a plain constant. -/
def foundExpression? (t : Tokens) : Option Node :=
  match t.items with
  | .node n :: _ => some n
  | _ => none

/-- Evaluates expressions in order, up to the first that fails. -/
def evaluateFound : List Node → Eval (List Finding × Option Fault)
  | [] => return ([], none)
  | n :: ns => do
    let outcome ←
      Eval.handle (do return Except.ok (← Semantics.run (.node n) none)) Eval.anyFault fun f ↦
        return .error f
    match outcome with
    | .error f => return ([], some f)
    | .ok v =>
      let (found, fault) ← evaluateFound ns
      return (⟨n, v⟩ :: found, fault)

/-- The constant expressions of a text with their values, and the fault that ended the scan. -/
def scan (code : String) : Eval (List Finding × Option Fault) := do
  let (found, unread) := Grammar.findAll .exprConst code
  let (findings, fault) ← evaluateFound (found.filterMap foundExpression?)
  return (findings, fault.orElse fun _ ↦ unread)

end VbaTrace.Engine
