/-!
The floating-point number nearest to a fraction. The quotient is formed with a few bits more than a
mantissa has, and a remainder counts as a further bit, so that one rounding, to the even neighbour in
a tie, gives the nearest number. Small results lose bits down to the smallest unit, large ones become
infinite.
-/

set_option autoImplicit false

namespace VbaTrace.Number

/-- Drops the lowest bits of `q`, rounding half to even; `inexact` tells of more beyond them. -/
def dropBits (q drop : Nat) (inexact : Bool) : Nat :=
  let unit := Nat.pow 2 drop
  let high := q / unit
  let twice := 2 * (q % unit)
  if unit < twice then high + 1
  else if twice == unit && (inexact || high % 2 == 1) then high + 1
  else high

/-- The bits of infinity. Those of the finite numbers come before, in the order of the numbers. -/
def infinityBits : Nat := 0x7ff0000000000000

/-- The floating-point number `mantissa · 2 ^ place`, infinite if that is too large. The mantissa has
fifty-three bits, or fewer in the lowest place; one more, after rounding up, carries over. -/
def assemble (mantissa : Nat) (place : Int) : Float :=
  Float.ofBits (UInt64.ofNat (min ((place + 1074).toNat * Nat.pow 2 52 + mantissa) infinityBits))

/-- The floating-point number nearest to `num / den`. -/
def nearest (num den : Nat) : Float :=
  if num == 0 then 0.0
  else
    let shift : Int := 55 - ((num.log2 : Int) - (den.log2 : Int))
    let n := if shift ≥ 0 then num * Nat.pow 2 shift.toNat else num
    let d := if shift ≥ 0 then den else den * Nat.pow 2 (-shift).toNat
    let q := n / d
    let least : Nat := q.log2 + 1 - 53
    let unit : Int := (least : Int) - shift
    let drop : Nat := if unit < -1074 then least + (-1074 - unit).toNat else least
    assemble (dropBits q drop (n % d != 0)) ((drop : Int) - shift)

end VbaTrace.Number
