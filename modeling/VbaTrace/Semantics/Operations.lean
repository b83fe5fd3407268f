import VbaTrace.Semantics.Operands
import VbaTrace.Value.Arithmetic

/-!
Evaluation of operator nodes. The operands are evaluated and combined from left to right. Where they
are of kinds that do not combine, most operators evaluate them once more and take them as whole
numbers, and what happens when that fails too differs from operator to operator.
-/

set_option autoImplicit false

namespace VbaTrace.Semantics

/-- Combines the values of the operands from left to right. -/
def combine (evaluate : Evaluator) (operation : Value → Value → Except Fault Value)
    (operands : List Value) : Eval Value := do
  let values ← evalOperands evaluate operands
  let h := (← get).heap
  Eval.ofExcept (Operator.fold operation (values.map h.opened))

/-- Combines the values of the operands, in which all lists have their items. -/
def combineResolved (evaluate : Evaluator) (operation : Value → Value → Except Fault Value)
    (operands : List Value) : Eval Value := do
  let values ← evalOperands evaluate operands
  let h := (← get).heap
  Eval.ofExcept (Operator.fold operation (values.map h.resolve))

/-- An operand that cannot be evaluated at all ends the program for some operators. -/
def endingProgram (x : Eval Value) : Eval Value :=
  Eval.handle x Fault.isUnsupported fun _ ↦ throw .exit

/-- Joins the texts of two values. -/
def joinTexts (v w : Value) : Except Fault Value := do
  return .text ((← v.written) ++ (← w.written))

/-- A sum of values of different kinds is one of whole numbers, or else of texts. -/
def evalSum (evaluate : Evaluator) (operands : List Value) : Eval Value :=
  Eval.handle (endingProgram (combine evaluate Value.add operands)) Fault.isWrongType fun _ ↦
    Eval.handle (combine evaluate (Operator.applyToInts .add) operands) Fault.isWrongValue fun _ ↦
      combineResolved evaluate joinTexts operands

/-- Bitwise operations retry with whole numbers, and give zero when that fails in any way. -/
def evalBitwise (evaluate : Evaluator) (op : Operator) (operands : List Value) : Eval Value :=
  Eval.handle (endingProgram (combine evaluate op.apply operands)) Fault.isWrongType fun _ ↦
    Eval.handle (combine evaluate op.applyToInts operands) Eval.anyFault fun _ ↦ return .int 0

def evalEqv (evaluate : Evaluator) (operands : List Value) : Eval Value :=
  Eval.handle (endingProgram (combine evaluate Value.bitEqv operands)) Fault.isWrongType fun _ ↦
    return .int 0

/-- A whole number or a single character as a number. -/
def ordinal? : Value → Option Int
  | .text s =>
    match s.toList with
    | [c] => some c.toNat
    | _ => none
  | v => v.asInt?

/-- Subtracts numbers of characters, and gives zero when an operand is no single character. -/
def subtractOrdinals (evaluate : Evaluator) (operands : List Value) : Eval Value := do
  let values ← evalOperands evaluate operands
  match values.mapM ordinal? with
  | some [] => throw .wrongType
  | some (n :: ns) => return .int (ns.foldl (· - ·) n)
  | none => return .int 0

def evalDifference (evaluate : Evaluator) (operands : List Value) : Eval Value :=
  Eval.handle (combine evaluate Value.subtract operands) Fault.isWrongType fun _ ↦
    Eval.handle (combine evaluate (Operator.applyToInts .subtract) operands) Fault.isOrdinary fun _ ↦
      subtractOrdinals evaluate operands

/-- Products and quotients retry with whole numbers, and give zero when that fails. -/
def evalProduct (evaluate : Evaluator) (op : Operator) (operands : List Value) : Eval Value :=
  Eval.handle (combine evaluate op.apply operands) Fault.isWrongType fun _ ↦
    Eval.handle (combine evaluate op.applyToInts operands) Fault.isOrdinary fun _ ↦ return .int 0

/-- A division by zero at the first attempt gives the empty text. -/
def evalQuotient (evaluate : Evaluator) (operands : List Value) : Eval Value :=
  Eval.handle (combine evaluate Value.divide operands)
    (fun f ↦ f.isWrongType || f == .divisionByZero) fun f ↦
      if f == .divisionByZero then return .empty
      else
        Eval.handle (combine evaluate (Operator.applyToInts .divide) operands) Fault.isOrdinary
          fun _ ↦ return .int 0

def joinAll (vs : List Value) : Except Fault Value := do
  return .text (String.join (← vs.mapM Value.joined))

/-- Joins the texts of all operands; the empty text when one of them is of the wrong kind. -/
def evalConcatenation (evaluate : Evaluator) (operands : List Value) : Eval Value :=
  Eval.handle
    (do
      let values ← evalOperands evaluate operands
      let h := (← get).heap
      Eval.ofExcept (joinAll (values.map h.resolve)))
    Fault.isWrongType fun _ ↦ return .empty

/-- The value of an operator node. -/
def evalOperation (evaluate : Evaluator) (op : Operator) (operands : List Value) : Eval Value :=
  match op with
  | .add => evalSum evaluate operands
  | .subtract => evalDifference evaluate operands
  | .multiply | .floorDivide => evalProduct evaluate op operands
  | .divide => evalQuotient evaluate operands
  | .modulo => combineResolved evaluate Value.modulo operands
  | .concatenate => evalConcatenation evaluate operands
  | .xor | .and | .or => evalBitwise evaluate op operands
  | .eqv => evalEqv evaluate operands

end VbaTrace.Semantics
