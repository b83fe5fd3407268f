import VbaTrace.Decimal.Shortest
import VbaTrace.Number.Nearest

/-!
Floating-point numbers beside whole numbers: conversion in both directions, exact comparison, and
quotients. Conversions that have no result, because the number is too large, infinite or undefined,
give nothing.
-/

set_option autoImplicit false

namespace VbaTrace.Number

open VbaTrace.Decimal

/-- `num / den` with a sign; nothing when the result is too large. -/
def signedNearest? (negative : Bool) (num den : Nat) : Option Float :=
  let x := nearest num den
  if x.isInf then none else some (if negative then -x else x)

/-- The nearest floating-point number, unless the whole number is too large. -/
def ofInt? (n : Int) : Option Float :=
  signedNearest? (n < 0) n.natAbs 1

/-- The exact quotient of whole numbers, rounded once; the divisor is not zero. -/
def quotient? (a b : Int) : Option Float :=
  signedNearest? ((a < 0) != (b < 0)) a.natAbs b.natAbs

/-- The whole part of the magnitude, and whether anything is left. -/
def Binary.whole (b : Binary) : Nat × Bool :=
  if b.exponent ≥ 0 then (b.mantissa * Nat.pow 2 b.exponent.toNat, false)
  else
    let unit := Nat.pow 2 (-b.exponent).toNat
    (b.mantissa / unit, b.mantissa % unit != 0)

def isFinite (x : Float) : Bool :=
  !(x.isNaN || x.isInf)

def withSign (negative : Bool) (n : Nat) : Int :=
  if negative then -(n : Int) else n

/-- Rounds towards zero. -/
def truncate? (x : Float) : Option Int :=
  if isFinite x then some (withSign (isNegative x) (Binary.whole (Binary.ofFloat x)).1) else none

/-- Rounds down. -/
def floor? (x : Float) : Option Int :=
  if isFinite x then
    let (n, left) := Binary.whole (Binary.ofFloat x)
    some (withSign (isNegative x) (if isNegative x && left then n + 1 else n))
  else none

/-- Rounds to the nearest whole number, half to even. -/
def round? (x : Float) : Option Int :=
  if isFinite x then
    let b := Binary.ofFloat x
    let n :=
      if b.exponent ≥ 0 then (Binary.whole b).1
      else dropBits b.mantissa (-b.exponent).toNat false
    some (withSign (isNegative x) n)
  else none

/-- The order of a whole number and a floating-point number; nothing when the latter is undefined. -/
def compareWithFloat (n : Int) (x : Float) : Option Ordering :=
  if x.isNaN then none
  else if x.isInf then some (if isNegative x then .gt else .lt)
  else
    let b := Binary.ofFloat x
    let m := withSign (isNegative x) b.mantissa
    if b.exponent ≥ 0 then some (compare n (m * Nat.pow 2 b.exponent.toNat))
    else some (compare (n * Nat.pow 2 (-b.exponent).toNat) m)

def compareFloats (x y : Float) : Option Ordering :=
  if x < y then some .lt
  else if x == y then some .eq
  else if y < x then some .gt
  else none

/-- The magnitude of `x` with the sign of `y`. -/
def copySign (x y : Float) : Float :=
  let m := x.abs
  if isNegative y then -m else m

/-- The remainder of a division that rounds towards zero; it has the sign of the dividend. -/
def remainder (x y : Float) : Float :=
  if x.isNaN || y.isNaN || x.isInf then 0.0 / 0.0
  else if y.isInf then x
  else
    let a := Binary.ofFloat x
    let b := Binary.ofFloat y
    let e := min a.exponent b.exponent
    let n := a.mantissa * Nat.pow 2 (a.exponent - e).toNat
    let d := b.mantissa * Nat.pow 2 (b.exponent - e).toNat
    let r := n % d
    let z := if e ≥ 0 then nearest (r * Nat.pow 2 e.toNat) 1 else nearest r (Nat.pow 2 (-e).toNat)
    copySign z x

/-- The quotient rounded down and the remainder with the sign of the divisor; that is not zero. -/
def divideFloor (x y : Float) : Float × Float :=
  let r := remainder x y
  let q := (x - r) / y
  let (r, q) :=
    if r != 0.0 then
      if (y < 0.0) != (r < 0.0) then (r + y, q - 1.0) else (r, q)
    else (copySign 0.0 y, q)
  if q != 0.0 then
    let f := q.floor
    (if q - f > 0.5 then f + 1.0 else f, r)
  else (copySign 0.0 (x / y), r)

/-- The power of a number to a whole exponent, given as a floating-point number. It has no value for
a negative power of zero, or when it is too large. -/
def power? (x y : Float) : Option Float :=
  if x == 0.0 && y < 0.0 then none
  else
    let z := Float.pow x y
    if z.isInf && isFinite x && isFinite y then none else some z

end VbaTrace.Number
