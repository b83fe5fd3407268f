/-!
Bitwise operations on whole numbers of any size. A negative number counts as an endless run of ones
to the left: `-(n + 1)` is the complement of `n`.
-/

set_option autoImplicit false

namespace VbaTrace.Number

/-- The bits of `m` that `n` lacks. -/
def without (m n : Nat) : Nat :=
  m ^^^ (m &&& n)

def complement : Int → Int
  | .ofNat n => .negSucc n
  | .negSucc n => .ofNat n

def bitAnd : Int → Int → Int
  | .ofNat m, .ofNat n => .ofNat (m &&& n)
  | .ofNat m, .negSucc n => .ofNat (without m n)
  | .negSucc m, .ofNat n => .ofNat (without n m)
  | .negSucc m, .negSucc n => .negSucc (m ||| n)

def bitOr : Int → Int → Int
  | .ofNat m, .ofNat n => .ofNat (m ||| n)
  | .ofNat m, .negSucc n => .negSucc (without n m)
  | .negSucc m, .ofNat n => .negSucc (without m n)
  | .negSucc m, .negSucc n => .negSucc (m &&& n)

def bitXor : Int → Int → Int
  | .ofNat m, .ofNat n => .ofNat (m ^^^ n)
  | .ofNat m, .negSucc n => .negSucc (m ^^^ n)
  | .negSucc m, .ofNat n => .negSucc (m ^^^ n)
  | .negSucc m, .negSucc n => .ofNat (m ^^^ n)

end VbaTrace.Number
