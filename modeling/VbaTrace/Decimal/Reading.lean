import VbaTrace.Number.Nearest
import VbaTrace.Text.Class

/-!
Numbers read from text. Surrounding white space is ignored, one sign may lead, digits of any script
count, and single underscores may stand between digits. A whole number has at most `digitLimit`
digits; a decimal number may have a fraction, an exponent, or be one of the words for infinity and
not-a-number.
-/

set_option autoImplicit false

namespace VbaTrace.Decimal

open VbaTrace

/-- The most digits that a whole number may have when it is read or written in base ten. -/
def digitLimit : Nat := 4300

/-- White space as number reading sees it: the ASCII blanks and every blank beyond ASCII. -/
def isSpace (c : Char) : Bool :=
  let n := c.toNat
  (9 ≤ n && n ≤ 13) || n == 32 || (127 ≤ n && Text.isBlank c)

def trimSpace (cs : List Char) : List Char :=
  ((cs.dropWhile isSpace).reverse.dropWhile isSpace).reverse

/-- Splits a leading sign off; `true` stands for minus. -/
def takeSign : List Char → Bool × List Char
  | '-' :: cs => (true, cs)
  | '+' :: cs => (false, cs)
  | cs => (false, cs)

/-- The values of a run of digits in which single underscores may stand between two digits. -/
def digitRun : List Char → Option (List Nat)
  | [] => none
  | [c] => (Text.digit? c).map fun d ↦ [d]
  | c :: '_' :: cs => do
    let d ← Text.digit? c
    let ds ← digitRun cs
    return d :: ds
  | c :: cs => do
    let d ← Text.digit? c
    let ds ← digitRun cs
    return d :: ds

def ofDigits (base : Nat) (ds : List Nat) : Nat :=
  ds.foldl (fun n d ↦ n * base + d) 0

/-- The whole number that a text denotes in base ten. -/
def readInt? (s : String) : Option Int := do
  let (negative, cs) := takeSign (trimSpace s.toList)
  let ds ← digitRun cs
  if ds.length ≤ digitLimit then
    let n : Int := ofDigits 10 ds
    return if negative then -n else n
  else none

/-- The value of a digit in bases up to thirty-six. -/
def baseDigit? (base : Nat) (c : Char) : Option Nat :=
  let v? :=
    match Text.digit? c with
    | some d => some d
    | none =>
      let n := c.toNat
      if 97 ≤ n && n ≤ 122 then some (n - 87)
      else if 65 ≤ n && n ≤ 90 then some (n - 55)
      else none
  v?.filter (· < base)

/-- The whole number that a run of digits denotes in a given base; nothing but digits may occur. -/
def readBase? (base : Nat) (cs : List Char) : Option Nat :=
  if cs.isEmpty then none else (cs.mapM (baseDigit? base)).map (ofDigits base)

/-- A decimal number `digits · 10 ^ exponent`. -/
structure Scientific where
  digits : Nat
  exponent : Int

/-- The nearest floating-point number; a value beyond the range is infinite, or zero. -/
def Scientific.toFloat (s : Scientific) : Float :=
  if s.digits == 0 then 0.0
  else
    let magnitude := (Nat.repr s.digits).length + s.exponent
    if magnitude > 400 then 1.0 / 0.0
    else if magnitude < -400 then 0.0
    else if s.exponent < 0 then Number.nearest s.digits (Nat.pow 10 s.exponent.natAbs)
    else Number.nearest (s.digits * Nat.pow 10 s.exponent.natAbs) 1

/-- The part before and after the first character that satisfies `p`. -/
def splitAtFirst (p : Char → Bool) (cs : List Char) : List Char × Option (List Char) :=
  let head := cs.takeWhile fun c ↦ !p c
  match cs.dropWhile fun c ↦ !p c with
  | [] => (head, none)
  | _ :: tail => (head, some tail)

/-- Digits, a point and more digits, where one side of the point may be empty. -/
def readMantissa? (cs : List Char) : Option Scientific :=
  match splitAtFirst (· == '.') cs with
  | (whole, none) => (digitRun whole).map fun ds ↦ ⟨ofDigits 10 ds, 0⟩
  | (whole, some frac) =>
    match whole, frac with
    | [], [] => none
    | [], _ => (digitRun frac).map fun ds ↦ ⟨ofDigits 10 ds, -(ds.length : Int)⟩
    | _, [] => (digitRun whole).map fun ds ↦ ⟨ofDigits 10 ds, 0⟩
    | _, _ => do
      let ws ← digitRun whole
      let fs ← digitRun frac
      return ⟨ofDigits 10 (ws ++ fs), -(fs.length : Int)⟩

def readExponent? (cs : List Char) : Option Int := do
  let (negative, ds) := takeSign cs
  let n : Int := ofDigits 10 (← digitRun ds)
  return if negative then -n else n

/-- A mantissa, or a mantissa and a power of ten after the letter. -/
def readScientific? (cs : List Char) : Option Scientific :=
  match splitAtFirst (fun c ↦ c == 'e' || c == 'E') cs with
  | (mantissa, none) => readMantissa? mantissa
  | (mantissa, some power) => do
    let m ← readMantissa? mantissa
    let e ← readExponent? power
    return ⟨m.digits, m.exponent + e⟩

/-- The magnitude that a text without sign denotes. -/
def readMagnitude? (cs : List Char) : Option Float :=
  let word := String.ofList (cs.map Char.toLower)
  if word == "inf" || word == "infinity" then some (1.0 / 0.0)
  else if word == "nan" then some (0.0 / 0.0)
  else (readScientific? cs).map Scientific.toFloat

/-- The floating-point number that a text denotes. -/
def readFloat? (s : String) : Option Float :=
  let (negative, cs) := takeSign (trimSpace s.toList)
  (readMagnitude? cs).map fun x ↦ if negative then -x else x

end VbaTrace.Decimal
