import VbaTrace.Semantics.Operands
import VbaTrace.Value.Arithmetic

/-!
Declarations and assignments. Variables of known type convert what is assigned to them between texts
and lists of bytes. An assignment to an element replaces an item of a list, or a character of a text,
and first extends what is too short.
-/

set_option autoImplicit false

namespace VbaTrace.Semantics

def isTyped (name : String) : Value → Bool
  | .text s => s == name
  | _ => false

/-- The characters of a text as bytes, each followed by a zero. -/
def bytePairs (s : String) : List Value :=
  s.toList.flatMap fun c ↦ [.int c.toNat, .int 0]

/-- Every second item, from the first. -/
def everySecond {α : Type} : List α → List α
  | [] => []
  | [x] => [x]
  | x :: _ :: xs => x :: everySecond xs

/-- The text that pairs of bytes denote, when all of them are numbers of characters. -/
def textOfPairs? (items : List Value) : Option String := do
  let codes ← items.mapM Value.asInt?
  let chars ← (everySecond codes).mapM Value.charOf?
  return String.ofList chars

/-- The text that null values and texts of at most one character make up. -/
def textOfPieces? (items : List Value) : Option String :=
  (items.mapM fun v : Value ↦
    match v with
    | .null => some ""
    | .text s => if s.length ≤ 1 then some s else none
    | _ => none).map String.join

/-- A list as a text, where its items allow that. -/
def listAsText (items : List Value) : Option String :=
  match textOfPairs? items with
  | some s => some s
  | none => textOfPieces? items

/-- What a variable of a type holds after an assignment. -/
def convertFor (type value openedValue : Value) : Value :=
  match openedValue with
  | .text s => if isTyped "Byte Array" type then .list (bytePairs s) else value
  | .list items =>
    if isTyped "String" type then ((listAsText items).map Value.text).getD value else value
  | _ => value

/-- The place that a bound of a cut denotes; a negative one counts from the end. -/
def cutPlace (length : Nat) (n : Int) : Nat :=
  if 0 ≤ n then n.toNat else ((length : Int) + n).toNat

/-- The items with those at a place replaced by others. -/
def splice {α : Type} (items : List α) (place : Int) (new : List α) : List α :=
  items.take (cutPlace items.length place) ++ new ++ items.drop (cutPlace items.length (place + 1))

/-- The items, and fillers behind them up to a place. That fails where they would be too many. -/
def extendTo {α : Type} (filler : α) (items : List α) (place : Int) : Except Fault (List α) :=
  if place < items.length then .ok items
  else return items ++ (← Value.repeated (place - items.length) [filler])

/-- A text after an assignment to one of its characters. A number is taken for its character; one
that has none, and a value of another kind, change nothing. -/
def updateText (s : String) (place : Int) (value : Value) : Eval Value := do
  let longer ← Eval.ofExcept (extendTo (Char.ofNat 0) s.toList place)
  match value, value.asInt? with
  | .text t, _ => return .ofChars (splice longer place t.toList)
  | _, some n =>
    match Value.charOf? n with
    | some c => return .ofChars (splice longer place [c])
    | none => return .ofChars longer
  | _, none => return .ofChars longer

/-- A list after an assignment to one of its items. The list itself is extended in place; the change
of the item is made in a new list. -/
def updateList (whole : Value) (items : List Value) (place : Int) (value : Value) : Eval Value := do
  let longer ← Eval.ofExcept (extendTo (.int 0) items place)
  match whole with
  | .array cell => modify fun m ↦ { m with heap := m.heap.write cell longer }
  | _ => pure ()
  return .list (splice longer place [value])

/-- What a variable holds after an assignment to one of its elements; the text or list that it holds
before is given as `openedWhole`, and any other value is replaced by a list. -/
def updateWhole (whole openedWhole : Value) (place : Int) (value : Value) : Eval Value :=
  match openedWhole with
  | .text s => updateText s place value
  | .list items => updateList whole items place value
  | _ => updateList .null [] place value

/-- The variable whose element is assigned; null when there is none. -/
def fetchWhole (name : Value) : Eval Value :=
  Eval.handle (fetch name) Fault.isMissing fun _ ↦ return .null

def assignElement (evaluate : Evaluator) (name index value : Value) : Eval Unit := do
  let place ← Eval.ofExcept (← opened (← evalOperand evaluate index)).toInt
  ensureWritable (.int place)
  let whole ← fetchWhole name
  store name (← updateWhole whole (← opened whole) place value) none

def evalAssign (evaluate : Evaluator) (name index expression : Value) : Eval Value := do
  let value ← evalOperand evaluate expression
  ensureWritable value
  if index.isNull then
    let type ← typeOf name
    store name (convertFor type value (← opened value)) none
  else assignElement evaluate name index value
  return .null

/-- The initial value and the recorded type of a declared variable. -/
def declaredAs (initial : Value) (isArray : Bool) (type : Value) :
    Except Fault (Value × Option Value) :=
  match type with
  | .null => .ok (initial, none)
  | .text t =>
    if isArray then .ok (.list [], some (.text (t ++ " Array")))
    else if t == "Long" || t == "Integer" then .ok (.int 0, some type)
    else if t == "String" then .ok (.empty, some type)
    else .ok (initial, some type)
  | type => if isArray then .error .wrongType else .ok (initial, some type)

def declareAll (initial : Value) : List Declared → Eval Unit
  | [] => return ()
  | .mk name isArray type :: ds => do
    let (value, recorded) ← Eval.ofExcept (declaredAs initial isArray type)
    store name value recorded
    declareAll initial ds

/-- All variables of a declaration start with the same value, and share it if it is a list. -/
def evalDim (evaluate : Evaluator) (initial : Value) (declared : List Declared) : Eval Value := do
  let value ← if initial.isNull then pure .empty else evalOperand evaluate initial
  declareAll (← share value) declared
  return .null

end VbaTrace.Semantics
