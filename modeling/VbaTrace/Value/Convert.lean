import VbaTrace.Fault
import VbaTrace.Number.Real
import VbaTrace.Syntax.Render

/-!
Values as numbers. Truth values count as zero and one, a text is read as a number, and a
floating-point number becomes a whole one by dropping its fraction.
-/

set_option autoImplicit false

namespace VbaTrace

/-- The fault when a part is asked of a value that has none: token lists answer with a text instead,
which then is of the wrong kind. -/
def Value.lacking : Value → Fault
  | .tokens _ => .wrongType
  | _ => .noMember

namespace Value

/-- The number that a whole number or a truth value is. -/
def asInt? : Value → Option Int
  | bool b => some (if b then 1 else 0)
  | int n => some n
  | _ => none

def isInt (v : Value) : Bool :=
  v.asInt?.isSome

def isText : Value → Bool
  | text _ => true
  | _ => false

def isList : Value → Bool
  | list _ => true
  | array _ => true
  | _ => false

def ofChar (c : Char) : Value :=
  text (String.singleton c)

def ofChars (cs : List Char) : Value :=
  text (String.ofList cs)

def intToFloat (n : Int) : Except Fault Float :=
  match Number.ofInt? n with
  | some x => .ok x
  | none => .error .overflow

/-- A floating-point number without its fraction. -/
def floatToInt (x : Float) : Except Fault Int :=
  match Number.truncate? x with
  | some n => .ok n
  | none => .error (if x.isNaN then .wrongValue else .overflow)

/-- The value as a whole number. -/
def toInt : Value → Except Fault Int
  | bool b => .ok (if b then 1 else 0)
  | int n => .ok n
  | float x => floatToInt x
  | text s =>
    match Decimal.readInt? s with
    | some n => .ok n
    | none => .error .wrongValue
  | _ => .error .wrongType

/-- The value as a floating-point number. -/
def toFloat : Value → Except Fault Float
  | bool b => .ok (if b then 1.0 else 0.0)
  | int n => intToFloat n
  | float x => .ok x
  | text s =>
    match Decimal.readFloat? s with
    | some x => .ok x
    | none => .error .wrongValue
  | _ => .error .wrongType

/-- The display form, which a number with too many digits does not have. -/
def written (v : Value) : Except Fault String :=
  if v.isWritable then .ok v.display else .error .wrongValue

/-- The text that a value contributes to a concatenation: null counts as empty. -/
def joined (v : Value) : Except Fault String :=
  if v.isNull then .ok "" else v.written

/-- The largest number of a character. -/
def lastCodePoint : Int := 0x10FFFF

/-- The numbers from `0xD800` to `0xDFFF` stand for no characters. -/
def isSurrogate (n : Int) : Bool :=
  0xD800 ≤ n && n ≤ 0xDFFF

/-- The character with a given number. -/
def charOf? (n : Int) : Option Char :=
  if 0 ≤ n && n ≤ lastCodePoint && !isSurrogate n then some (Char.ofNat n.toNat) else none

def kind : Value → Kind
  | null => .null
  | bool _ => .bool
  | int _ => .int
  | float _ => .float
  | text _ => .text
  | list _ => .list
  | array _ => .list
  | tokens _ => .tokens
  | node (.simpleName _) => .name
  | node (.member ..) => .member
  | node (.call ..) => .call
  | node _ => .node
  | routine _ => .routine

end Value

end VbaTrace
