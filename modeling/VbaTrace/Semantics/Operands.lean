import VbaTrace.Encoding.Base64
import VbaTrace.Library.Call

/-!
Evaluation of operands. A node is evaluated, and a value stands for itself, except that a text with a
dot in it may name a variable, a procedure or a property of the document. All definitions here take
the evaluation of nodes as a parameter.
-/

set_option autoImplicit false

namespace VbaTrace.Semantics

/-- The decoded form of a text that holds encoded data, without null characters; other values, and
texts that cannot be decoded, stay as they are. -/
def decodedText (v : Value) : Value :=
  match v with
  | .text s =>
    match Encoding.decodeBase64 s.toList with
    | .ok bytes => .text (Encoding.bytesAsText (bytes.filter (· != 0)))
    | .error _ => v
  | v => v

/-- The value of a name, or the result of `otherwise` when it has none. -/
def fetchOr (name : String) (otherwise : Eval Value) : Eval Value :=
  Eval.handle (fetch (.text name)) Fault.isMissing fun _ ↦ otherwise

def itemCall : String := "activedocument.item("

/-- The name of the property in a text such as `activedocument.item('title')`. -/
def itemName (s : String) : String :=
  Text.lower (Text.trimmed
    (Text.replace "'" "" (Text.replace ")" "" (Text.replace itemCall "" s))))

/-- A property of the document by the text of its access. -/
def itemProperty (s : String) : Eval Value := do
  match (← get).itemProperties with
  | none => return .empty
  | some properties =>
    match properties.find? (itemName s) with
    | some v =>
      ensureWritable v
      return v
    | none => return .empty

/-- The value of a text with a dot: a variable of that name, what the procedure behind the last dot
gives, a property of the document, or the text itself. -/
def dottedText (evaluate : Evaluator) (s : String) : Eval Value :=
  let low := Text.lower s
  fetchOr low do
    let found ←
      Eval.handle
        (do return some (← evaluate (← fetch (.text (Text.afterLast "." low))) none))
        Fault.isOrdinary fun _ ↦ return none
    match found with
    | some v => return v
    | none => if Text.startsWith itemCall low then itemProperty low else return .text s

/-- The value of a text. -/
def evalText (evaluate : Evaluator) (s : String) : Eval Value :=
  let low := Text.lower s
  if Text.contains ".nodetypedvalue" low then
    Eval.handle
      (do return decodedText (← fetch (.text (Text.replace ".nodetypedvalue" ".text" low))))
      Fault.isMissing fun _ ↦ return .text s
  else if Text.contains ".selecteditem" low then
    fetchOr (Text.replace ".selecteditem" ".rapt.value" low) (return .text s)
  else if Text.contains "." low then dottedText evaluate s
  else return .text s

/-- The value of an operand, which is written to the log first. -/
def evalOperand (evaluate : Evaluator) (v : Value) : Eval Value :=
  match v with
  | .node _ => do
    ensureWritable v
    evaluate v none
  | .text s => evalText evaluate s
  | v => do
    ensureWritable v
    return v

/-- The values of operands, evaluated from left to right. -/
def evalOperands (evaluate : Evaluator) : List Value → Eval (List Value)
  | [] => return []
  | v :: vs => do
    let w ← evalOperand evaluate v
    let ws ← evalOperands evaluate vs
    return w :: ws

/-- What a walk over a value meets. -/
def walk (v : Value) : Eval (List Value) := do
  match (← opened v).walk? with
  | some vs => return vs
  | none => throw .wrongType

/-- The values of the arguments that a call was given. -/
def evalArguments (evaluate : Evaluator) (args : Value) : Eval (List Value) := do
  evalOperands evaluate (← walk args)

def truth (v : Value) : Eval Bool := do
  return (← opened v).truthy

def equal (v w : Value) : Eval Bool := do
  let h := (← get).heap
  return (h.resolve v).equals (h.resolve w)

end VbaTrace.Semantics
