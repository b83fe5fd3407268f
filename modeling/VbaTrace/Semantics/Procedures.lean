import VbaTrace.Semantics.Statements

/-!
Activations of procedures and of functions from other libraries. Every activation has a frame of its
own.
-/

set_option autoImplicit false

namespace VbaTrace.Semantics

def parameterName (v : Value) : Except Fault Value :=
  match v with
  | .node (.parameter name _) => .ok name
  | v => .error v.lacking

/-- Binds arguments to parameters; there may be fewer arguments than parameters, but not more. -/
def bindParameters : List Value → List Value → Eval Unit
  | _, [] => return ()
  | [], _ :: _ => throw .outOfRange
  | p :: ps, a :: as => do
    let name ← Eval.ofExcept (parameterName p)
    ensureWritable a
    store name a none
    bindParameters ps as

/-- Without arguments the parameters are not looked at. -/
def bindArguments (params : Value) (args : Arguments) : Eval Unit := do
  match args.getD [] with
  | [] => return ()
  | as => bindParameters (← walk params) as

/-- Evaluates the statements of a procedure, up to its exit where it heeds exits. -/
def evalStatements (evaluate : Evaluator) (heedsExit : Bool) : List Value → Eval Unit
  | [] => return ()
  | s :: ss => do
    ensureWritable s
    let _ ← evaluate s none
    if heedsExit && (← get).frame.exited then return ()
    else evalStatements evaluate heedsExit ss

/-- The conditional without an end behind the statements of a procedure. -/
def evalTrailing (evaluate : Evaluator) (trailing : Value) : Eval Unit := do
  if trailing.isNull then return ()
  else
    let _ ← evaluate trailing none

def evalSub (evaluate : Evaluator) (name params body trailing : Value) (args : Arguments) :
    Eval Value :=
  inNewFrame do
    bindArguments params args
    evalStatements evaluate false (← walk body)
    evalTrailing evaluate trailing
    Eval.handle (do let _ ← fetch name) Fault.isMissing fun _ ↦ store name .empty none
    return .null

/-- What a function returns is the value of the variable with its name; nothing assigned is the
empty text. -/
def returnValue (name : Value) : Eval Value :=
  Eval.handle
    (do
      let v ← fetch name
      let v ←
        if v.isNull then do
          store name .empty none
          pure .empty
        else pure v
      ensureWritable v
      return v)
    Fault.isMissing fun _ ↦ do
      store name .empty none
      return .null

def evalFunction (evaluate : Evaluator) (name params body trailing : Value) (args : Arguments) :
    Eval Value :=
  inNewFrame do
    store name .null none
    bindArguments params args
    evalStatements evaluate true (← walk body)
    evalTrailing evaluate trailing
    modifyFrame fun fr ↦ { fr with exited := false }
    returnValue name

def lowered (v : Value) : Except Fault String :=
  connective v

/-- The argument at a place, of a call that may have none. -/
def argumentAt (args : Arguments) (place : Nat) : Except Fault Value :=
  match args with
  | none => .error .wrongType
  | some as => Library.argument as place

/-- Functions from other libraries: downloads and commands are recorded, all others do nothing. -/
def evalExternal (name library exported : Value) (args : Arguments) : Eval Value :=
  inNewFrame do
    match args with
    | some as => ensureWritable (.list as)
    | none => pure ()
    let key ← Eval.ofExcept (lowered (if exported.truthy then exported else name))
    let source ← Eval.ofExcept (lowered library)
    if Text.startsWith "urlmon" source && Text.startsWith "urldownloadtofile" key then
      let description := Value.text "External Function: urlmon.dll / URLDownloadToFile"
      report (.text "Download URL") (← Eval.ofExcept (argumentAt args 1)) description
      report (.text "Write File") (← Eval.ofExcept (argumentAt args 2)) description
      return .int 0
    else if Text.startsWith "shellexecute" key then
      let command ← displayed (← Eval.ofExcept (argumentAt args 2))
      let params ← displayed (← Eval.ofExcept (argumentAt args 3))
      report (.text "Run Command") (.text (command ++ params)) (.text key)
      return .int 0
    else return .null

end VbaTrace.Semantics
