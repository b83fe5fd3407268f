import VbaTrace.Library.Files
import VbaTrace.Semantics.Assignments
import VbaTrace.Semantics.Expressions

/-!
Evaluation of statements that contain other statements, and of calls, exits and file statements. A
loop pushes a flag that an exit from it lowers; the flag is looked at behind every statement of its
body. The number of rounds of a loop is bounded by a parameter.
-/

set_option autoImplicit false

namespace VbaTrace.Semantics

/-- Evaluates statements in order. -/
def evalBlock (evaluate : Evaluator) (args : Arguments) : List Value → Eval Unit
  | [] => return ()
  | s :: ss => do
    let _ ← evaluate s args
    evalBlock evaluate args ss

def pushLoop : Eval Unit :=
  modifyFrame fun fr ↦ { fr with loops := true :: fr.loops }

def popLoop : Eval Unit := do
  match (← get).frame.loops with
  | [] => throw .outOfRange
  | _ :: rest => modifyFrame fun fr ↦ { fr with loops := rest }

/-- Whether the innermost loop still runs. -/
def loopRuns : Eval Bool := do
  match (← get).frame.loops with
  | [] => throw .outOfRange
  | runs :: _ => return runs

/-- Evaluates the body of a loop once; tells whether the loop was left. -/
def evalBody (evaluate : Evaluator) : List Value → Eval Bool
  | [] => return false
  | s :: ss => do
    ensureWritable s
    let _ ← evaluate s none
    if ← loopRuns then evalBody evaluate ss else return true

/-- Whether a value is at most a number. -/
def isAtMost (v : Value) (n : Int) : Eval Bool := do
  Eval.ofExcept ((← resolved v).related .lessOrEqual (.int n))

/-- The sum of the loop variable and the step. -/
def advanced (v step : Value) : Eval Value := do
  Eval.ofExcept ((← opened v).add (← opened step))

def forRounds (evaluate : Evaluator) (name : Value) (stop : Int) (step body : Value) :
    Nat → Eval Unit
  | 0 => throw .tooDeep
  | rounds + 1 => do
    let v ← fetch name
    if ← isAtMost v stop then
      ensureWritable v
      if ← evalBody evaluate (← walk body) then return ()
      else
        store name (← advanced (← fetch name) step) none
        forRounds evaluate name stop step body rounds
    else return ()

/-- The last value of a counting loop: a value that is no whole number counts as zero, and the bound
on loops caps it. -/
def loopStop (bound : Int) (v : Value) : Int :=
  let n := v.asInt?.getD 0
  if 0 < bound && bound < n then bound else n

/-- A step of one is not evaluated. -/
def loopStep (evaluate : Evaluator) (step : Value) : Eval Value := do
  if step.equals (.int 1) then return .int 1
  else
    let v ← evalOperand evaluate step
    ensureWritable v
    return v

def evalFor (evaluate : Evaluator) (rounds : Nat) (name start stop step body : Value) :
    Eval Value := do
  let first ← evalOperand evaluate start
  ensureWritable first
  let last ← evalOperand evaluate stop
  if last.isInt then ensureWritable last
  let last := loopStop (← get).loopBound last
  let step ← loopStep evaluate step
  pushLoop
  store name first none
  forRounds evaluate name last step body rounds
  popLoop
  return .null

/-- The item that a walk over a container meets next. A list in a cell is read anew each time, since
the body may extend it. -/
def nextItem (container : Value) (items : List Value) (place : Nat) : Eval (Option Value) := do
  match container with
  | .array cell => return ((← get).heap.read cell)[place]?
  | _ => return items[place]?

def forEachRounds (evaluate : Evaluator) (item container body : Value) (items : List Value) :
    Nat → Nat → Eval Unit
  | 0, _ => throw .tooDeep
  | rounds + 1, place => do
    match ← nextItem container items place with
    | none => return ()
    | some v =>
      store item v none
      ensureWritable (← fetch item)
      if ← evalBody evaluate (← walk body) then return ()
      else forEachRounds evaluate item container body items rounds (place + 1)

def walkContainer (evaluate : Evaluator) (rounds : Nat) (item container body : Value) :
    Eval Unit := do
  forEachRounds evaluate item container body (← walk container) rounds 0

/-- What is walked over is the variable that the container names, or else its value. A failure ends
the loop silently. -/
def evalForEach (evaluate : Evaluator) (rounds : Nat) (item container body : Value) :
    Eval Value := do
  pushLoop
  let value ← evalOperand evaluate container
  let value ←
    Eval.handle (fetch container) (fun f ↦ f.isMissing || f == .failedAssertion)
      fun _ ↦ return value
  Eval.handle (walkContainer evaluate rounds item value body) Eval.anyFault fun _ ↦ return ()
  popLoop
  return .null

/-- Whether a loop with a guard goes on. -/
def guardHolds (evaluate : Evaluator) (kind guard : Value) : Eval Bool := do
  let v ← evalOperand evaluate guard
  if (← Eval.ofExcept (connective kind)) == "until" then return !(← truth v) else truth v

def whileRounds (evaluate : Evaluator) (kind guard body : Value) : Nat → Eval Unit
  | 0 => throw .tooDeep
  | rounds + 1 => do
    if ← guardHolds evaluate kind guard then
      if ← evalBody evaluate (← walk body) then return ()
      else whileRounds evaluate kind guard body rounds
    else return ()

def evalWhile (evaluate : Evaluator) (rounds : Nat) (kind guard body : Value) : Eval Value := do
  pushLoop
  whileRounds evaluate kind guard body rounds
  popLoop
  return .null

def doRounds (evaluate : Evaluator) (kind guard : Value) (body : List Value) : Nat → Eval Unit
  | 0 => throw .tooDeep
  | rounds + 1 => do
    if ← evalBody evaluate body then return ()
    else if ← guardHolds evaluate kind guard then doRounds evaluate kind guard body rounds
    else return ()

def evalDo (evaluate : Evaluator) (rounds : Nat) (kind guard body : Value) : Eval Value := do
  pushLoop
  doRounds evaluate kind guard (← walk body) rounds
  popLoop
  return .null

/-- The guard and the body of a case. -/
def caseParts (v : Value) : Except Fault (Value × Value) :=
  match v with
  | .node (.selectCase guard body) => .ok (guard, body)
  | v => .error v.lacking

/-- Takes the first case whose guard accepts the value. -/
def evalCases (evaluate : Evaluator) (args : Arguments) (v : Value) : List Value → Eval Unit
  | [] => return ()
  | c :: cs => do
    let (guard, body) ← Eval.ofExcept (caseParts c)
    ensureWritable v
    if ← truth (← evaluate guard (some [v])) then evalBlock evaluate args (← walk body)
    else evalCases evaluate args v cs

def evalSelect (evaluate : Evaluator) (args : Arguments) (subject cases : Value) : Eval Value := do
  let v ← evaluate subject args
  evalCases evaluate args v (← walk cases)
  return .null

/-- Whether a value is one of the whole numbers from `first` to `last`. -/
def isBetween (first last : Int) (v : Value) : Bool :=
  match v with
  | .float x =>
    match Number.truncate? x with
    | some n => v.equals (.int n) && first ≤ n && n ≤ last
    | none => false
  | v =>
    match v.asInt? with
    | some n => first ≤ n && n ≤ last
    | none => false

/-- The two ends of a range, as whole numbers. -/
def rangeEnds (evaluate : Evaluator) (values : List Value) : Eval (Int × Int) := do
  match values with
  | first :: last :: _ =>
    let m ← Eval.ofExcept (← opened (← evalOperand evaluate first)).toInt
    let n ← Eval.ofExcept (← opened (← evalOperand evaluate last)).toInt
    return (m, n)
  | _ => throw .outOfRange

/-- The values that a case lists; a list cannot be one of them. -/
def listedValues (evaluate : Evaluator) : List Value → Eval (List Value)
  | [] => return []
  | v :: vs => do
    let w ← evalOperand evaluate v
    if w.isList then throw .wrongType
    let ws ← listedValues evaluate vs
    return w :: ws

/-- Whether a case accepts the value of its selection. -/
def evalCaseClause (evaluate : Evaluator) (args : Arguments) (values : Value)
    (isRange isSet isElse : Bool) : Eval Value := do
  match args with
  | none => throw .wrongType
  | some [] => throw .outOfRange
  | some (v :: _) =>
    if isElse then return .bool true
    let listed ← walk values
    if isRange then
      Eval.handle
        (do
          let (first, last) ← rangeEnds evaluate listed
          return .bool (isBetween first last v))
        Eval.anyFault fun _ ↦ return .bool false
    else if isSet then
      let found ←
        Eval.handle (do return some (← listedValues evaluate listed)) Eval.anyFault
          fun _ ↦ return none
      match found with
      | none => return .bool false
      | some expected =>
        if v.isList then throw .wrongType
        return .bool (expected.any v.equals)
    else
      match listed with
      | [] => throw .outOfRange
      | expected :: _ => return .bool (← equal v (← evalOperand evaluate expected))

/-- Takes the first branch whose guard holds. -/
def evalBranches (evaluate : Evaluator) : List Branch → Eval Unit
  | [] => return ()
  | .mk guard body :: bs => do
    let holds ← if guard.isNull then pure true else truth (← evaluate guard none)
    if holds then evalBlock evaluate none (← walk body) else evalBranches evaluate bs

/-- A conditional of the preprocessor takes its first branch in any case. -/
def evalConditional (evaluate : Evaluator) (directive : Bool) (branches : List Branch) :
    Eval Value := do
  if directive then
    match branches with
    | [] => throw .outOfRange
    | .mk _ body :: _ => evalBlock evaluate none (← walk body)
  else evalBranches evaluate branches
  return .null

/-- The arguments as a method call records them; what is written is shown without null
characters. -/
def methodArguments (name : String) (args : List Value) : List Value :=
  if Text.endsWith ".Write" name then
    args.map fun v ↦
      match v with
      | .text s => .text (Text.replace (String.singleton (Char.ofNat 0)) "" s)
      | v => v
  else args

/-- The bare name of a procedure: without suffixes, quotes, brackets and what stands before the last
dot. -/
def bareName (name : String) : String :=
  Text.afterLast "."
    (["$", "VBA.", "Math.", "[", "]", "'", "\""].foldl (fun s part ↦ Text.replace part "" s) name)

/-- Calls a procedure by its bare name. -/
def callBare (evaluate : Evaluator) (name : String) (args : List Value) : Eval Unit := do
  let f ← fetch (.text (bareName name))
  if ← truth f then
    let _ ← evaluate f (some args)

/-- A last attempt at a procedure that was not found. -/
def callIndirectly (evaluate : Evaluator) (name : String) (args : List Value) : Eval Unit :=
  if runNames.contains name then
    Eval.handle (do let _ ← runIndirectly evaluate args) Fault.isMissing fun _ ↦ return ()
  else return ()

/-- A call statement. A name that is missing, also inside the procedure, makes it try the bare name,
and then gives up silently. -/
def evalCallStatement (evaluate : Evaluator) (name params : Value) : Eval Value := do
  let args ← evalArguments evaluate params
  ensureWritable (.list args)
  let shown ← displayed name
  if Text.lower shown == "msgbox" then
    match args with
    | [] => throw .outOfRange
    | v :: _ =>
      report (.text "Display Message") (.text (← resolved v).quoted) (.text "MsgBox")
      return .int 1
  if Text.contains "." shown then
    report (.text "Object.Method Call")
      (.text ("[" ++ (← shownArguments (methodArguments shown args)) ++ "]")) (.text shown)
  Eval.handle
    (do let _ ← evaluate (← fetch (.text shown)) (some args))
    Fault.isMissing fun _ ↦
      Eval.handle (callBare evaluate shown args) Fault.isMissing fun _ ↦
        callIndirectly evaluate shown args
  return .null

/-- Lowers the flag of the innermost loop. -/
def evalExitLoop : Eval Value := do
  match (← get).frame.loops with
  | [] => throw .outOfRange
  | _ :: rest =>
    modifyFrame fun fr ↦ { fr with loops := false :: rest }
    return .null

def enterWith (outer name : String) : String :=
  if outer.isEmpty then name else outer ++ "." ++ name

def leaveWith (inner : String) : String :=
  if Text.contains "." inner then Text.beforeLast "." inner else ""

def evalWith (evaluate : Evaluator) (subject body : Value) : Eval Value := do
  let name ← displayed subject
  modifyFrame fun fr ↦ { fr with withName := enterWith fr.withName name }
  evalBlock evaluate none (← walk body)
  modifyFrame fun fr ↦ { fr with withName := leaveWith fr.withName }
  return .null

/-- Opens a file; its name is the variable that the statement names, or else its value. -/
def evalOpenFile (evaluate : Evaluator) (fileName number : Value) : Eval Value := do
  let name ← evalOperand evaluate fileName
  let name ←
    Eval.handle (fetch fileName) (fun f ↦ f.isMissing || f == .failedAssertion)
      fun _ ↦ return name
  Library.startFile number.display name
  return .null

def evalPrint (evaluate : Evaluator) (number value : Value) : Eval Value := do
  let key ← evalOperand evaluate number
  let data ← evalOperand evaluate value
  Library.appendToFile key data
  return .null

end VbaTrace.Semantics
