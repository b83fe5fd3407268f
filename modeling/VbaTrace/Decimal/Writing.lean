import VbaTrace.Decimal.Reading
import VbaTrace.Decimal.Shortest

/-!
Numbers written as text. A floating-point number is written with its shortest digits, positionally
when the point falls within the sixteen digits after, or the four places before, the first digit, and
with an exponent of at least two digits otherwise. A whole number with more than `digitLimit` digits
has no base-ten text.
-/

set_option autoImplicit false

namespace VbaTrace.Decimal

/-- How a floating-point number is laid out. -/
structure Layout where
  /-- Positional while the place of the point is at least this. -/
  lowest : Int
  /-- Positional while the place of the point is at most this. -/
  highest : Int
  /-- The least number of digits of an exponent. -/
  exponentWidth : Nat
  infinite : String
  undefined : String

/-- The layout of floating-point values everywhere in this library. -/
def layout : Layout := ⟨-3, 16, 2, "inf", "nan"⟩

def padLeft (width : Nat) (fill : Char) (s : String) : String :=
  String.ofList (List.replicate (width - s.length) fill) ++ s

def writeDigits (l : Layout) (d : Digits) : String :=
  let n : Int := d.digits.length
  if l.lowest ≤ d.place && d.place ≤ l.highest then
    if d.place ≤ 0 then
      "0." ++ String.ofList (List.replicate (-d.place).toNat '0' ++ d.digits)
    else if n ≤ d.place then
      String.ofList (d.digits ++ List.replicate (d.place - n).toNat '0') ++ ".0"
    else
      String.ofList (d.digits.take d.place.toNat) ++ "." ++
        String.ofList (d.digits.drop d.place.toNat)
  else
    let e := d.place - 1
    let mantissa :=
      match d.digits with
      | [] => "0"
      | [c] => String.singleton c
      | c :: cs => String.singleton c ++ "." ++ String.ofList cs
    mantissa ++ "e" ++ (if e < 0 then "-" else "+") ++
      padLeft l.exponentWidth '0' (Nat.repr e.natAbs)

def writeFloat (x : Float) : String :=
  if x.isNaN then layout.undefined
  else
    let sign := if isNegative x then "-" else ""
    if x.isInf then sign ++ layout.infinite
    else if x == 0.0 then sign ++ "0.0"
    else sign ++ writeDigits layout (shortest x)

/-- The whole number has a base-ten text. -/
def isWritable (n : Int) : Bool :=
  n.natAbs < Nat.pow 10 digitLimit

def writeInt (n : Int) : String :=
  if n < 0 then "-" ++ Nat.repr n.natAbs else Nat.repr n.natAbs

end VbaTrace.Decimal
