import VbaTrace.Text.ClassTable

/-!
Character classes. `isBlank` is the set that trimming removes, `digit?` reads a decimal digit of any
script, `isWordChar` is the set of identifier-like characters, and `isPrintable` tells which
characters a quoted text shows as they are.
-/

set_option autoImplicit false

namespace VbaTrace.Text

/-- Membership in a set of numbers that is given by its runs: how many numbers are out of it, how many
of the next ones are in it, and so on in turn. -/
def inRuns : List Nat → Nat → Bool
  | out :: inside :: rest, n =>
    if n < out then false
    else if n < out + inside then true
    else inRuns rest (n - (out + inside))
  | _, _ => false

/-- White space of any kind, line breaks and the information separators included. -/
def isBlank (c : Char) : Bool :=
  let n := c.toNat
  (9 ≤ n && n ≤ 13) || (0x1C ≤ n && n ≤ 0x20) || n == 0x85 || n == 0xA0 || n == 0x1680 ||
    (0x2000 ≤ n && n ≤ 0x200A) || n == 0x2028 || n == 0x2029 || n == 0x202F || n == 0x205F ||
    n == 0x3000

/-- The value of a decimal digit of any script. -/
def digit? (c : Char) : Option Nat :=
  let n := c.toNat
  if n < 128 then
    if 48 ≤ n && n ≤ 57 then some (n - 48) else none
  else
    (digitZeros.find? fun z ↦ z ≤ n && n ≤ z + 9).map (n - ·)

def isDigit (c : Char) : Bool :=
  (digit? c).isSome

def isAlphanumeric (c : Char) : Bool :=
  let n := c.toNat
  if n < 128 then c.isAlphanum else inRuns alphanumericRuns n

/-- Letters, numbers and the underscore. -/
def isWordChar (c : Char) : Bool :=
  c == '_' || isAlphanumeric c

def isPrintable (c : Char) : Bool :=
  let n := c.toNat
  if n < 128 then 32 ≤ n && n < 127 else !inRuns unprintableRuns n

end VbaTrace.Text
