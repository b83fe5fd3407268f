import VbaTrace.Semantics.Procedures

/-!
Evaluation of any value. One step evaluates a node by the rule for its kind, given the evaluation of
its parts; `evaluate` ties the knot for a bounded depth of nesting.
-/

set_option autoImplicit false

namespace VbaTrace.Semantics

/-- One step of evaluation of a node. -/
def evalNode (evaluate : Evaluator) (rounds : Nat) (n : Node) (args : Arguments) : Eval Value :=
  match n with
  | .chr arg => evalChr evaluate arg
  | .asc arg => evalAsc evaluate arg
  | .strReverse arg => evalStrReverse evaluate arg
  | .environ arg => evalEnviron evaluate arg
  | .simpleName name => evalName evaluate name
  | .me => throw .unsupported
  | .member object path last => evalMember evaluate object path last
  | .call name params => evalCall evaluate name params
  | .element array index => evalElement evaluate array index
  | .operation op operands => evalOperation evaluate op operands
  | .comparison lhs op rhs => evalComparison evaluate lhs op rhs
  | .condition lhs op rhs => evalCondition evaluate lhs op rhs
  | .new object => return object
  | .dim initial declared => evalDim evaluate initial declared
  | .external name _ library exported _ => evalExternal name library exported args
  | .assign target index value => evalAssign evaluate target index value
  | .forLoop name start stop step body => evalFor evaluate rounds name start stop step body
  | .forEach item container body => evalForEach evaluate rounds item container body
  | .whileLoop kind guard body => evalWhile evaluate rounds kind guard body
  | .doLoop kind guard body => evalDo evaluate rounds kind guard body
  | .select subject cases => evalSelect evaluate args subject cases
  | .selectClause subject => evaluate subject args
  | .caseClause values isRange isSet isElse =>
    evalCaseClause evaluate args values isRange isSet isElse
  | .conditional directive branches => evalConditional evaluate directive branches
  | .callStatement name params => evalCallStatement evaluate name params
  | .exitFor | .exitDo => evalExitLoop
  | .exitProcedure => do
    modifyFrame fun fr ↦ { fr with exited := true }
    return .null
  | .withBlock subject body => evalWith evaluate subject body
  | .openFile fileName number _ _ => evalOpenFile evaluate fileName number
  | .print number value => evalPrint evaluate number value
  | .sub name params body trailing => evalSub evaluate name params body trailing args
  | .function name params body _ trailing => evalFunction evaluate name params body trailing args
  | .attributeLine .. | .optionLine _ | .parameter .. | .globalVar .. | .unknown _ | .property ..
  | .selectCase .. | .redim _ | .goto _ | .label _ | .onError _ | .codeModule .. => return .null

/-- One step of evaluation of a value: nodes and routines can be evaluated, other values not. -/
def evalValue (evaluate : Evaluator) (rounds : Nat) (v : Value) (args : Arguments) : Eval Value :=
  match v with
  | .node n => evalNode evaluate rounds n args
  | .routine r => r.call evaluate args
  | v => throw v.lacking

/-- Evaluates a value, with at most `rounds` rounds for each loop and `depth` nested steps. -/
def evaluate (rounds : Nat) : Nat → Evaluator
  | 0 => fun _ _ ↦ throw .tooDeep
  | depth + 1 => fun v args ↦ evalValue (evaluate rounds depth) rounds v args

/-- More rounds than a loop can make in practice. -/
def roundLimit : Nat := Nat.pow 2 40

/-- How deep evaluation may nest in practice. -/
def depthLimit : Nat := 3000

/-- Evaluation within the limits of practice. -/
def run : Evaluator :=
  evaluate roundLimit depthLimit

end VbaTrace.Semantics
