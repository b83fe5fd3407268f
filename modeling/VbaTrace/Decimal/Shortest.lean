/-!
The fewest decimal digits that read back as a given floating-point number. The number is decoded
into `mantissa · 2 ^ exponent`; the reals that round to it form an interval, closed when the mantissa
is even. For one, two, … seventeen digits the two neighbours of the value on that decimal grid are
tried, and the first grid with a neighbour in the interval gives the digits.
-/

set_option autoImplicit false

namespace VbaTrace.Decimal

/-- A positive finite number `mantissa · 2 ^ exponent`. -/
structure Binary where
  mantissa : Nat
  exponent : Int

/-- The magnitude of a finite floating-point number. -/
def Binary.ofFloat (x : Float) : Binary :=
  let bits : Nat := x.toBits.toNat
  let fraction : Nat := bits % Nat.pow 2 52
  let biased : Nat := bits / Nat.pow 2 52 % Nat.pow 2 11
  if biased == 0 then ⟨fraction, -1074⟩ else ⟨Nat.pow 2 52 + fraction, (biased : Int) - 1075⟩

def isNegative (x : Float) : Bool :=
  x.toBits.toNat / Nat.pow 2 63 == 1

/-- The interval of reals that round to a number, and the number itself, over one denominator. -/
structure Rounding where
  low : Nat
  value : Nat
  high : Nat
  den : Nat
  closed : Bool

def Rounding.of (b : Binary) : Rounding :=
  -- in units of a quarter of the last place, so that both halves are whole numbers
  let low := if b.mantissa == Nat.pow 2 52 && b.exponent > -1074 then 4 * b.mantissa - 1
    else 4 * b.mantissa - 2
  let value := 4 * b.mantissa
  let high := 4 * b.mantissa + 2
  let closed := b.mantissa % 2 == 0
  if b.exponent ≥ 2 then
    let s := Nat.pow 2 (b.exponent - 2).toNat
    ⟨low * s, value * s, high * s, 1, closed⟩
  else ⟨low, value, high, Nat.pow 2 (2 - b.exponent).toNat, closed⟩

/-- `num / den` lies in the interval of `r`. -/
def Rounding.contains (r : Rounding) (num den : Nat) : Bool :=
  let x := num * r.den
  if r.closed then r.low * den ≤ x && x ≤ r.high * den
  else r.low * den < x && x < r.high * den

/-- The place of the first digit: the least `e` with `value < 10 ^ e`, searched near `guess`. -/
def Rounding.place (r : Rounding) : Nat → Int → Int
  | 0, e => e
  | fuel + 1, e =>
    let below :=
      if e ≥ 0 then r.value < Nat.pow 10 e.toNat * r.den
      else r.value * Nat.pow 10 (-e).toNat < r.den
    if below then
      let e' := e - 1
      let still :=
        if e' ≥ 0 then r.value < Nat.pow 10 e'.toNat * r.den
        else r.value * Nat.pow 10 (-e').toNat < r.den
      if still then r.place fuel e' else e
    else r.place fuel (e + 1)

/-- The digits of the nearer neighbour with `n` digits that rounds back, if there is one. -/
def Rounding.withDigits (r : Rounding) (place : Int) (n : Nat) : Option Nat :=
  let unit := place - n
  -- the value in units of the grid
  let (num, den) :=
    if unit ≥ 0 then (r.value, r.den * Nat.pow 10 unit.toNat)
    else (r.value * Nat.pow 10 (-unit).toNat, r.den)
  let lower := num / den
  let upper := lower + 1
  let inside := fun k ↦
    if unit ≥ 0 then r.contains (k * Nat.pow 10 unit.toNat) 1
    else r.contains k (Nat.pow 10 (-unit).toNat)
  let lowerIn := inside lower
  let upperIn := inside upper
  if lowerIn && upperIn then
    let twice := 2 * (num - lower * den)
    if twice < den then some lower
    else if den < twice then some upper
    else some (if lower % 2 == 0 then lower else upper)
  else if lowerIn then some lower
  else if upperIn then some upper
  else none

/-- Shortest digits and the place of the decimal point: the value reads `0.d₁d₂… · 10 ^ place`. -/
structure Digits where
  digits : List Char
  place : Int

/-- The first grid, from `n` digits on, with a neighbour that rounds back, and its unit. -/
def firstDigits (r : Rounding) (place : Int) : Nat → Nat → Nat × Int
  | 0, _ => (r.value / r.den, 0)
  | fuel + 1, n =>
    match r.withDigits place n with
    | some k => (k, place - n)
    | none => firstDigits r place fuel (n + 1)

def dropTrailingZeros (cs : List Char) : List Char :=
  (cs.reverse.dropWhile (· == '0')).reverse

/-- The shortest digits of a positive finite number. -/
def shortest (x : Float) : Digits :=
  let b := Binary.ofFloat x
  let r := Rounding.of b
  let guess : Int := (b.exponent + (Nat.log2 b.mantissa : Int)) * 30103 / 100000
  let place := r.place 800 guess
  let (k, unit) := firstDigits r place 20 1
  let cs := (Nat.repr k).toList
  ⟨dropTrailingZeros cs, unit + cs.length⟩

end VbaTrace.Decimal
