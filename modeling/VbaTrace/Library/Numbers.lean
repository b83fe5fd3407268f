import VbaTrace.Library.Arguments
import VbaTrace.Text.Case
import VbaTrace.Text.Search
import VbaTrace.Value.Arithmetic

/-!
Routines on numbers: conversions, rounding, and functions of analysis. Most give the empty text when
something is wrong with their argument.
-/

set_option autoImplicit false

namespace VbaTrace.Library

/-- A routine of one argument that gives the empty text when it fails. -/
def lenient (f : Value → Answer) (h : Heap) (args : List Value) : Answer := do
  require (args.length == 1)
  recorded h (orEmpty (f (h.opened (← argument args 0))))

/-- The empty text stands for a whole number that cannot be had. -/
def int (h : Heap) (args : List Value) : Answer := do
  require (!args.isEmpty)
  let v ← argument args 0
  match (h.opened v).toInt with
  | .ok n => recorded h (.int n)
  | .error _ => do
    let _ ← recorded h v
    return .empty

def digitsIn (base : Nat) (n : Nat) : String :=
  String.ofList (Nat.toDigits base n)

/-- Octal digits behind the sign and the mark of the base. -/
def oct (h : Heap) (args : List Value) : Answer := do
  require (!args.isEmpty)
  let v ← argument args 0
  match v.asInt? with
  | some n => return .text ((if n < 0 then "-0o" else "0o") ++ digitsIn 8 n.natAbs)
  | none => do
    let _ ← recorded h v
    return .empty

/-- Hexadecimal digits in upper case, behind the sign. -/
def hexText (n : Int) : String :=
  (if n < 0 then "-" else "") ++ Text.upper (digitsIn 16 n.natAbs)

def hex (v : Value) : Answer := do
  return .text (hexText (← v.toInt))

/-- One for zero and above, minus one below. -/
def sgn (v : Value) : Answer := do
  let x ← Value.intToFloat (← v.toInt)
  return .int (if Decimal.isNegative x then -1 else 1)

def sqr (v : Value) : Answer := do
  let x ← Value.intToFloat (← v.toInt)
  if x < 0.0 then throw .wrongValue
  return .float x.sqrt

def abs (v : Value) : Answer := do
  return .int (← v.toInt).natAbs

/-- A whole number from a floating-point one by a way of rounding. -/
def rounded (round : Float → Option Int) (v : Value) : Answer := do
  match round (← v.toFloat) with
  | some n => return .int n
  | none => throw .wrongValue

/-- A function of analysis without a value at infinity. -/
def bounded (f : Float → Float) (v : Value) : Answer := do
  let x ← v.toFloat
  if x.isInf then throw .wrongValue
  return .float (f x)

def atn (v : Value) : Answer := do
  return .float (← v.toFloat).atan

def exp (v : Value) : Answer := do
  let x ← v.toFloat
  let y := x.exp
  if y.isInf && !x.isInf then throw .overflow
  return .float y

/-- The logarithm; a number or text without one gives the empty text, other faults remain. -/
def log (h : Heap) (args : List Value) : Answer := do
  require (args.length == 1)
  match (h.opened (← argument args 0)).toFloat with
  | .ok x => return if x ≤ 0.0 then .empty else .float x.log
  | .error .wrongValue => return .empty
  | .error f => throw f

/-- Hexadecimal digits with single underscores between them. -/
def hexRun : List Char → Option (List Nat)
  | [] => none
  | [c] => (Decimal.baseDigit? 16 c).map fun d ↦ [d]
  | c :: '_' :: cs => do return (← Decimal.baseDigit? 16 c) :: (← hexRun cs)
  | c :: cs => do return (← Decimal.baseDigit? 16 c) :: (← hexRun cs)

/-- The number behind a hexadecimal mark `0x`, blanks around it ignored. -/
def readHex? (s : String) : Option Int :=
  match Decimal.trimSpace s.toList with
  | '0' :: 'x' :: '_' :: cs => (hexRun cs).map fun ds ↦ Decimal.ofDigits 16 ds
  | '0' :: 'x' :: cs => (hexRun cs).map fun ds ↦ Decimal.ofDigits 16 ds
  | _ => none

def hexMark : String := "&H"

/-- A text in upper case as a value: a number if it has the hexadecimal mark. -/
def unmarked (s : String) : Answer :=
  let s := Text.upper s
  if Text.startsWith hexMark s then
    match readHex? (Text.replace hexMark "0x" s) with
    | some n => .ok (.int n)
    | none => .error .wrongValue
  else .ok (.text s)

def cByte (v : Value) : Answer := do
  match v with
  | .text s =>
    match Number.round? (← (← unmarked s).toFloat) with
    | some n => return .int (min n 255)
    | none => throw .wrongValue
  | v => throw v.lacking

def single (v : Value) : Answer := do
  match v with
  | .text s => return .float (← (← unmarked s).toFloat)
  | v => throw v.lacking

/-- The argument has to be writable, too. -/
def cSng (h : Heap) (args : List Value) : Answer := do
  let r ← lenient single h args
  let _ ← recorded h (← argument args 0)
  return r

/-- A text of one character is that character's number. -/
def cLng (v : Value) : Answer := do
  match v with
  | .text s =>
    match ← unmarked s with
    | .text t =>
      match t.toList with
      | [c] => return .int c.toNat
      | _ => return .int (← (Value.text t).toInt)
    | w => return w
  | v => return .int (← v.toInt)

/-- One for the true value and for one, zero for all else. -/
def cBool (args : List Value) : Answer := do
  require (args.length == 1)
  return .int (if (← argument args 0).equals (.int 1) then 1 else 0)

/-- Every date is the same day. -/
def cDate (args : List Value) : Answer := do
  require (args.length == 1)
  return .int 12345

/-- A character repeated; a number takes the place of the product. -/
def string (h : Heap) (args : List Value) : Answer := do
  require (args.length == 2)
  let count := h.opened (← argument args 0)
  let char := h.opened (← argument args 1)
  recorded h (orEmpty (do char.multiply (.int (← count.toInt))))

def rgb (h : Heap) (args : List Value) : Answer := do
  require (args.length == 3)
  let red := h.opened (← argument args 0)
  let green := h.opened (← argument args 1)
  let blue := h.opened (← argument args 2)
  recorded h (orEmpty (do
    return .int ((← red.toInt) + (← green.toInt) * 256 + (← blue.toInt) * 65536)))

/-- The digits behind the first hexadecimal mark that has any. -/
def findHex? : List Char → Option (List Char)
  | [] => none
  | '&' :: 'H' :: cs =>
    let digits := cs.takeWhile fun c ↦ c.toNat < 128 && (Decimal.baseDigit? 16 c).isSome
    if digits.isEmpty then findHex? ('H' :: cs) else some digits
  | _ :: cs => findHex? cs

/-- Digits, and behind a point more digits. -/
def takeDecimal (cs : List Char) : List Char :=
  let whole := cs.takeWhile Text.isDigit
  match cs.drop whole.length with
  | '.' :: rest =>
    let fraction := rest.takeWhile Text.isDigit
    if fraction.isEmpty then whole else whole ++ '.' :: fraction
  | _ => whole

def startsWithDigit : List Char → Bool
  | c :: _ => Text.isDigit c
  | [] => false

/-- The first decimal number in a text, with its sign. -/
def findDecimal? : List Char → Option (List Char)
  | [] => none
  | c :: cs =>
    if Text.isDigit c then some (takeDecimal (c :: cs))
    else if (c == '+' || c == '-') && startsWithDigit cs then some (c :: takeDecimal cs)
    else findDecimal? cs

def val (args : List Value) : Answer := do
  require (args.length == 1)
  match ← argument args 0 with
  | .text s =>
    let cs := (Text.trim s.toList).filter (· != ' ')
    match findHex? cs with
    | some digits =>
      let n := ((digits.mapM (Decimal.baseDigit? 16)).map (Decimal.ofDigits 16)).getD 0
      return .float (← Value.intToFloat n)
    | none =>
      match findDecimal? cs with
      | some number => return .float (← (Value.ofChars number).toFloat)
      | none => return .int 0
  | _ => return .empty

/-- The payment of an annuity: rate, number of periods, present value, future value, and whether
payments are due at the beginning. -/
def payment (rate periods present negatedFuture due : Float) : Answer := do
  match Number.power? (1.0 + rate) periods with
  | none => throw .overflow
  | some growth =>
    let divisor := (1.0 + rate * due) * (growth - 1.0)
    if divisor != 0.0 then return .float (((negatedFuture - present * growth) * rate) / divisor)
    else return .int 0

def pmt (h : Heap) (args : List Value) : Answer := do
  require (args.length ≥ 3)
  return orEmpty do
    let float := fun v ↦ (h.opened v).toFloat
    let rate ← float (← argument args 0)
    let periods ← Value.intToFloat (← (h.opened (← argument args 1)).toInt)
    let present ← float (← argument args 2)
    let negatedFuture ←
      match args[3]? with
      | some v => (float v).map fun x ↦ -x
      | none => .ok 0.0
    let due ←
      match args[4]? with
      | some v => float v
      | none => .ok 0.0
    payment rate periods present negatedFuture due

end VbaTrace.Library
