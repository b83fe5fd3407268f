import VbaTrace.Decimal.Writing
import VbaTrace.Number.Nearest

/-!
Floating-point numbers with a given number of digits: a fixed number of places, a fixed number of
digits with an exponent, or the shorter of the two. The exact binary value is rounded once, half to
even.
-/

set_option autoImplicit false

namespace VbaTrace.Decimal

/-- Rounds `num / den` to a whole number, half to even. -/
def roundDiv (num den : Nat) : Nat :=
  let q := num / den
  let twice := 2 * (num % den)
  if den < twice || (twice == den && q % 2 == 1) then q + 1 else q

/-- The magnitude of a finite number as a fraction. -/
def Binary.fraction (b : Binary) : Nat × Nat :=
  if b.exponent ≥ 0 then (b.mantissa * Nat.pow 2 b.exponent.toNat, 1)
  else (b.mantissa, Nat.pow 2 (-b.exponent).toNat)

/-- The magnitude in units of `10 ^ unit`, rounded. -/
def inUnits (b : Binary) (unit : Int) : Nat :=
  let (num, den) := b.fraction
  if unit ≥ 0 then roundDiv num (den * Nat.pow 10 unit.toNat)
  else roundDiv (num * Nat.pow 10 (-unit).toNat) den

/-- Digits with the point `places` from the right. -/
def withPoint (places : Nat) (alternate : Bool) (n : Nat) : String :=
  let ds := (padLeft (places + 1) '0' (Nat.repr n)).toList
  let whole := String.ofList (ds.take (ds.length - places))
  if places == 0 then if alternate then whole ++ "." else whole
  else whole ++ "." ++ String.ofList (ds.drop (ds.length - places))

/-- A fixed number of places behind the point. -/
def writePlaces (places : Nat) (alternate : Bool) (x : Float) : String :=
  withPoint places alternate (inUnits (Binary.ofFloat x) (-(places : Int)))

/-- The first `digits` digits of a positive number, and the power of ten of the first one. -/
def leadingDigits (digits : Nat) (b : Binary) : Nat × Int :=
  if b.mantissa == 0 then (0, 0)
  else
    let place := (Rounding.of b).place 800
      ((b.exponent + (Nat.log2 b.mantissa : Int)) * 30103 / 100000)
    let k := inUnits b (place - digits)
    if k ≥ Nat.pow 10 digits then (k / 10, place) else (k, place - 1)

def writeExponent (e : Int) : String :=
  "e" ++ (if e < 0 then "-" else "+") ++ padLeft 2 '0' (Nat.repr e.natAbs)

/-- One digit before the point, `places` behind it, and an exponent. -/
def writeScientific (places : Nat) (alternate : Bool) (x : Float) : String :=
  let (k, e) := leadingDigits (places + 1) (Binary.ofFloat x)
  withPoint places alternate k ++ writeExponent e

def withoutTrailingZeros (s : String) : String :=
  if s.toList.contains '.' then
    let cs := (s.toList.reverse.dropWhile (· == '0'))
    String.ofList (cs.dropWhile (· == '.')).reverse
  else s

/-- At most `digits` digits, with an exponent where the number is very small or needs more. -/
def writeGeneral (digits : Nat) (alternate : Bool) (x : Float) : String :=
  let digits := max digits 1
  let (k, e) := leadingDigits digits (Binary.ofFloat x)
  if -4 ≤ e && e < digits then
    let s := writePlaces ((digits : Int) - 1 - e).toNat alternate x
    if alternate then s else withoutTrailingZeros s
  else
    let s := withPoint (digits - 1) alternate k
    (if alternate then s else withoutTrailingZeros s) ++ writeExponent e

end VbaTrace.Decimal
