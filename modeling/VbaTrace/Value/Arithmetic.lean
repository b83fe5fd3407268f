import VbaTrace.Number.Bits
import VbaTrace.Value.Compare
import VbaTrace.Value.Template

/-!
The operators on values. Whole numbers have any size; where a floating-point number takes part, both
operands become one. Texts and lists can be added to their like and repeated, and a text before the
remainder sign is a template. A list in a cell has to be opened first.
-/

set_option autoImplicit false

namespace VbaTrace

namespace Value

/-- An operation on numbers, by a rule for whole and a rule for floating-point numbers. -/
def onNumbers (ints : Int → Int → Except Fault Value) (floats : Float → Float → Except Fault Value) :
    Value → Value → Except Fault Value
  | float x, float y => floats x y
  | float x, w =>
    match w.asInt? with
    | some n => do floats x (← intToFloat n)
    | none => .error .wrongType
  | v, float y =>
    match v.asInt? with
    | some n => do floats (← intToFloat n) y
    | none => .error .wrongType
  | v, w =>
    match v.asInt?, w.asInt? with
    | some m, some n => ints m n
    | _, _ => .error .wrongType

/-- Counts from here on are no positions. -/
def indexLimit : Int := Nat.pow 2 63

/-- The items, repeated as often as a count says; a negative count stands for zero. -/
def repeated {α : Type} (n : Int) (items : List α) : Except Fault (List α) :=
  if n < -indexLimit || indexLimit ≤ n then .error .overflow
  else if items.isEmpty then .ok []
  else .ok (List.replicate n.toNat items).flatten

/-- A repeated text has to have a length that is a position. -/
def repeatText (n : Int) (s : String) : Except Fault Value :=
  if indexLimit ≤ n * s.length then .error .overflow else (repeated n s.toList).map ofChars

def repeatList (n : Int) (vs : List Value) : Except Fault Value :=
  (repeated n vs).map list

def add : Value → Value → Except Fault Value
  | text s, text t => .ok (text (s ++ t))
  | list vs, list ws => .ok (list (vs ++ ws))
  | v, w => onNumbers (fun m n ↦ .ok (int (m + n))) (fun x y ↦ .ok (float (x + y))) v w

def subtract (v w : Value) : Except Fault Value :=
  onNumbers (fun m n ↦ .ok (int (m - n))) (fun x y ↦ .ok (float (x - y))) v w

def multiplyNumbers (v w : Value) : Except Fault Value :=
  onNumbers (fun m n ↦ .ok (int (m * n))) (fun x y ↦ .ok (float (x * y))) v w

/-- Multiplies numbers, or repeats a text or a list. -/
def multiply (v w : Value) : Except Fault Value :=
  match v, v.asInt?, w, w.asInt? with
  | text s, _, _, some n => repeatText n s
  | list vs, _, _, some n => repeatList n vs
  | _, some n, text s, _ => repeatText n s
  | _, some n, list vs, _ => repeatList n vs
  | v, _, w, _ => multiplyNumbers v w

def divide (v w : Value) : Except Fault Value :=
  onNumbers
    (fun m n ↦
      if n == 0 then .error .divisionByZero
      else match Number.quotient? m n with
        | some x => .ok (float x)
        | none => .error .overflow)
    (fun x y ↦ if y == 0.0 then .error .divisionByZero else .ok (float (x / y))) v w

def floorDivide (v w : Value) : Except Fault Value :=
  onNumbers
    (fun m n ↦ if n == 0 then .error .divisionByZero else .ok (int (Int.fdiv m n)))
    (fun x y ↦
      if y == 0.0 then .error .divisionByZero else .ok (float (Number.divideFloor x y).1)) v w

/-- The remainder with the sign of the divisor. A text is a template that the other value fills. -/
def modulo : Value → Value → Except Fault Value
  | text s, w => (fillTemplate s w).map text
  | v, w =>
    onNumbers
      (fun m n ↦ if n == 0 then .error .divisionByZero else .ok (int (Int.fmod m n)))
      (fun x y ↦
        if y == 0.0 then .error .divisionByZero else .ok (float (Number.divideFloor x y).2)) v w

/-- A bitwise operation; of two truth values it gives a truth value. -/
def bitwise (ints : Int → Int → Int) (bools : Bool → Bool → Bool) :
    Value → Value → Except Fault Value
  | bool a, bool b => .ok (bool (bools a b))
  | v, w =>
    match v.asInt?, w.asInt? with
    | some m, some n => .ok (int (ints m n))
    | _, _ => .error .wrongType

def bitAnd : Value → Value → Except Fault Value :=
  bitwise Number.bitAnd (· && ·)

def bitOr : Value → Value → Except Fault Value :=
  bitwise Number.bitOr (· || ·)

def bitXor : Value → Value → Except Fault Value :=
  bitwise Number.bitXor (· ^^ ·)

def bitNot (v : Value) : Except Fault Value :=
  match v.asInt? with
  | some n => .ok (int (Number.complement n))
  | none => .error .wrongType

/-- The bits in which both agree. -/
def bitEqv (v w : Value) : Except Fault Value := do
  bitOr (← bitAnd v w) (← bitNot (← bitOr v w))

/-- The texts of both, joined. -/
def concatenate (v w : Value) : Except Fault Value := do
  return text ((← v.joined) ++ (← w.joined))

end Value

namespace Operator

/-- The operation on two values. -/
def apply : Operator → Value → Value → Except Fault Value
  | multiply => Value.multiply
  | divide => Value.divide
  | floorDivide => Value.floorDivide
  | modulo => Value.modulo
  | subtract => Value.subtract
  | add => Value.add
  | concatenate => Value.concatenate
  | xor => Value.bitXor
  | and => Value.bitAnd
  | or => Value.bitOr
  | eqv => Value.bitEqv

/-- The operation on the whole numbers that two values denote. -/
def applyToInts (op : Operator) (v w : Value) : Except Fault Value := do
  let m ← v.toInt
  let n ← w.toInt
  op.apply (.int m) (.int n)

/-- Combines operands from left to right. -/
def fold (combine : Value → Value → Except Fault Value) : List Value → Except Fault Value
  | [] => .error .wrongType
  | v :: vs => vs.foldlM combine v

end Operator

end VbaTrace
