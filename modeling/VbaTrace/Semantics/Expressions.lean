import VbaTrace.Grammar.Parse
import VbaTrace.Semantics.Operations

/-!
Evaluation of expression nodes other than operators: characters, names, member accesses, calls,
elements of lists, comparisons and conditions.
-/

set_option autoImplicit false

namespace VbaTrace.Semantics

/-- The character with a given number, or the empty text. -/
def charText (n : Int) : Value :=
  match Value.charOf? n with
  | some c => .ofChar c
  | none => .empty

/-- The character whose number is the literal at the start of a text. -/
def charOfLiteral (s : String) : Value :=
  match Grammar.readFront .integer (Text.trimmed s) with
  | .ok reading =>
    match reading.tokens.items with
    | v :: _ => (v.asInt?.map charText).getD .empty
    | [] => .empty
  | .error _ => .empty

def evalChr (evaluate : Evaluator) (arg : Value) : Eval Value := do
  let v ← evalOperand evaluate arg
  match v.asInt?, v with
  | some n, _ =>
    ensureWritable v
    return charText n
  | none, .text s => return charOfLiteral s
  | none, v => throw (.wrongCharacter v.kind)

/-- The number of the first character of a text, or of the one that a list starts with. -/
def evalAsc (evaluate : Evaluator) (arg : Value) : Eval Value := do
  let v ← opened (← evalOperand evaluate arg)
  match v.walk? with
  | none => throw .wrongType
  | some [] => throw .outOfRange
  | some (.text s :: _) =>
    match s.toList with
    | [c] => return .int c.toNat
    | _ => throw .wrongType
  | some (_ :: _) => throw .wrongType

def evalStrReverse (evaluate : Evaluator) (arg : Value) : Eval Value := do
  match ← opened (← evalOperand evaluate arg) with
  | .text s => return .ofChars s.toList.reverse
  | .list vs => return .list vs.reverse
  | .tokens t => return .list t.items.reverse
  | _ => throw .wrongType

def evalEnviron (evaluate : Evaluator) (arg : Value) : Eval Value := do
  return .text ("%" ++ (← displayed (← evalOperand evaluate arg)) ++ "%")

/-- A procedure or routine, which a name alone calls without arguments. -/
def isCallable : Value → Bool
  | .node (.sub ..) | .node (.function ..) | .routine _ => true
  | _ => false

/-- The value of a name; the empty text when it has none. -/
def evalName (evaluate : Evaluator) (name : String) : Eval Value :=
  Eval.handle
    (do
      let v ← fetch (.text name)
      ensureWritable v
      if isCallable v then
        let w ← evaluate v none
        ensureWritable w
        return w
      else return v)
    Fault.isMissing fun _ ↦ return .empty

/-- The last part of a member access. -/
def lastMember (path : List Value) (last : Value) : Option Value :=
  if last.length?.getD 0 > 0 then some last else path.getLast?

def isCall : Value → Bool
  | .node (.call ..) => true
  | _ => false

/-- A member access is what its last part gives if that is a call, and otherwise what its own text
stands for. -/
def evalMember (evaluate : Evaluator) (object : Value) (path : List Value) (last : Value) :
    Eval Value := do
  let _ ← evalOperand evaluate object
  match lastMember path last with
  | none => throw .outOfRange
  | some part =>
    let v ← evalOperand evaluate part
    if isCall part then return v
    else evalOperand evaluate (.text (Node.member object path last).render)

/-- Calls of these functions are recorded, whatever stands before their names. -/
def notableFunctions : List String :=
  ["createprocessa", "createprocessw", ".run", "createobject", "open", ".open", "getobject",
    "create", ".create", "environ", "createtextfile", ".createtextfile"]

def isNotable (name : String) : Bool :=
  notableFunctions.any fun tail ↦ Text.endsWith tail (Text.lower name)

/-- The quoted forms of arguments between commas. -/
def shownArguments (args : List Value) : Eval String := do
  let h := (← get).heap
  return spread ", " (args.map fun v ↦ (h.resolve v).quoted)

/-- The item at a place; a negative place counts from the end. -/
def itemAt? {α : Type} (items : List α) (place : Int) : Option α :=
  if 0 ≤ place then items[place.toNat]?
  else if (items.length : Int) + place < 0 then none
  else items[((items.length : Int) + place).toNat]?

/-- The item of a list at a place. A list with one text in it is taken for that text. -/
def elementOf (items : List Value) (place : Int) : Value :=
  match items with
  | [.text s] => ((itemAt? s.toList place).map Value.ofChar).getD .empty
  | items => (itemAt? items place).getD .empty

/-- The number of the character of a text at a place, null when there is none. -/
def codeAt (s : String) (place : Value) : Value :=
  match place.toInt with
  | .ok n => ((itemAt? s.toList n).map fun c ↦ Value.int c.toNat).getD .null
  | .error _ => .null

/-- Calls a value. A list or a text is indexed instead. -/
def callValue (evaluate : Evaluator) (f : Value) (args : List Value) : Eval Value := do
  match ← opened f, args with
  | .null, _ => return .null
  | .list items, arg :: _ =>
    ensureWritable (.list items)
    let place ← Eval.ofExcept (← opened arg).toInt
    return elementOf items place
  | .list _, [] => return .null
  | .text s, arg :: _ => return codeAt s (← opened arg)
  | .text _, [] => return .null
  | _, _ => evaluate f (some args)

/-- Calls what a name stands for. -/
def callNamed (evaluate : Evaluator) (name : String) (args : List Value) : Eval Value := do
  callValue evaluate (← fetch (.text name)) args

def runNames : List String := ["Application.Run", "Run"]

/-- Runs what the first argument names, which has to be a text, with the other arguments. -/
def runIndirectly (evaluate : Evaluator) (args : List Value) : Eval Value := do
  match args with
  | [] => throw .outOfRange
  | .text name :: rest => evaluate (← fetch (.text name)) (some rest)
  | _ :: _ => throw .wrongType

/-- The value of a call. A name that is missing, also inside what is called, makes it null. -/
def evalCall (evaluate : Evaluator) (name : String) (params : Value) : Eval Value := do
  let args ← evalArguments evaluate params
  ensureWritable (.list args)
  if isNotable name then
    report (.text name) (.text (← shownArguments args)) (.text "Interesting Function Call")
  Eval.handle (callNamed evaluate name args) Fault.isMissing fun _ ↦
    if runNames.contains name then
      Eval.handle (runIndirectly evaluate args) Fault.isMissing fun _ ↦ return .null
    else return .null

/-- The item of the list that a call gives; the empty text when there is none. -/
def evalElement (evaluate : Evaluator) (array index : Value) : Eval Value := do
  let v ← evalOperand evaluate array
  let i ← evalOperand evaluate index
  match ← opened v, i.asInt? with
  | .list items, some n => if n < 0 then return .empty else return items.getD n.toNat .empty
  | _, _ => return .empty

/-- Whether an operand reads a variable. -/
def readsName : Value → Bool
  | .node (.simpleName _) | .node (.comparison (.node (.simpleName _)) .null _) => true
  | _ => false

/-- What an operand of a comparison stands for, and whether a variable held that. -/
structure Side where
  value : Value
  held : Bool

/-- An operand of a comparison; one that cannot be evaluated stands for itself. -/
def evalSide (evaluate : Evaluator) (v : Value) : Eval Side :=
  Eval.handle (do return ⟨← evalOperand evaluate v, readsName v⟩) (· == .noMember) fun _ ↦
    return ⟨v, false⟩

/-- Whether two operands are equal. Code in variables is equal when its text is; other code stands
for itself and equals nothing. -/
def Side.equals (h : Heap) (a b : Side) : Bool :=
  match a.value, b.value with
  | .node _, .node _ => a.held && b.held && a.value.equals b.value
  | v, w => (h.resolve v).equals (h.resolve w)

/-- Whether a comparison holds; an unknown sign never does. -/
def compareSides (h : Heap) (sign : String) (a b : Side) : Except Fault Bool :=
  let v := h.resolve a.value
  let w := h.resolve b.value
  match sign with
  | "=" => .ok (a.equals h b)
  | ">" => v.related .greater w
  | "<" => v.related .less w
  | ">=" => v.related .greaterOrEqual w
  | "<=" => v.related .lessOrEqual w
  | "<>" => .ok (!a.equals h b)
  | _ => .ok false

def evalComparison (evaluate : Evaluator) (lhs op rhs : Value) : Eval Value := do
  let a ← evalSide evaluate lhs
  if op.isNull then return a.value
  let b ← evalSide evaluate rhs
  return .bool (← Eval.ofExcept (compareSides (← get).heap op.asText a b))

/-- The lower-case text of a connective. -/
def connective (op : Value) : Except Fault String :=
  match op with
  | .text s => .ok (Text.lower s)
  | v => .error v.lacking

/-- A negation; the empty text when its operand fails in any way. -/
def evalNegation (evaluate : Evaluator) (op rhs : Value) : Eval Value := do
  let found ←
    Eval.handle (do return some (← evalOperand evaluate rhs)) Eval.anyFault fun _ ↦ return none
  match found with
  | none => return .empty
  | some v =>
    if (← Eval.ofExcept (connective op)) == "not" then return .bool !(← truth v)
    else return .empty

/-- A condition. `And` and `Or` give one of their operands, both of which are evaluated. -/
def evalCondition (evaluate : Evaluator) (lhs op rhs : Value) : Eval Value := do
  if lhs.isNull then evalNegation evaluate op rhs
  else
    let a ← evalSide evaluate lhs
    if op.isNull then return a.value
    let b ← evalSide evaluate rhs
    let word ← Eval.ofExcept (connective op)
    if word == "and" || word == "andalso" then
      return if ← truth a.value then b.value else a.value
    else if word == "or" || word == "orelse" then
      return if ← truth a.value then a.value else b.value
    else if word == "eqv" then return .bool (a.equals (← get).heap b)
    else return .bool false

end VbaTrace.Semantics
