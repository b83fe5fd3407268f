/-!
Patterns for file names: `*` stands for any text, `?` for any character, and `[…]` for one character
out of a set, or one outside of it after an exclamation mark.
-/

set_option autoImplicit false

namespace VbaTrace.CommandLine

/-- An item of a pattern. -/
inductive Wildcard
  | anyText
  | anyChar
  | char (c : Char)
  /-- A character within one of the ranges, or within none of them. -/
  | oneOf (excluded : Bool) (ranges : List (Char × Char))

namespace Wildcard

/-- The ranges of a set; a hyphen between two characters makes a range of them. -/
def rangesOf : List Char → List (Char × Char)
  | a :: '-' :: b :: cs => (a, b) :: rangesOf cs
  | c :: cs => (c, c) :: rangesOf cs
  | [] => []

/-- The set after an opening bracket, and the length of what stands between the brackets. A closing
bracket at the beginning is a member. -/
def set? (cs : List Char) : Option (Wildcard × Nat) :=
  let excluded := cs.head? == some '!'
  let body := if excluded then cs.tail else cs
  let length := (body.tail.takeWhile (· != ']')).length + 1
  if length < body.length then
    some (.oneOf excluded (rangesOf (body.take length)), length + excluded.toNat)
  else none

/-- The items of a pattern; `skip` characters belong to the last one. -/
def itemsFrom : Nat → List Char → List Wildcard
  | _, [] => []
  | skip + 1, _ :: cs => itemsFrom skip cs
  | 0, '*' :: cs => anyText :: itemsFrom 0 cs
  | 0, '?' :: cs => anyChar :: itemsFrom 0 cs
  | 0, '[' :: cs =>
    match set? cs with
    | some (item, length) => item :: itemsFrom (length + 1) cs
    | none => char '[' :: itemsFrom 0 cs
  | 0, c :: cs => char c :: itemsFrom 0 cs

def accepts (c : Char) : Wildcard → Bool
  | anyText => false
  | anyChar => true
  | char d => c == d
  | oneOf excluded ranges => (ranges.any fun r ↦ r.1 ≤ c && c ≤ r.2) != excluded

/-- Whether a text matches the items. -/
def matchesItems : List Wildcard → List Char → Bool
  | [], cs => cs.isEmpty
  | anyText :: ps, [] => matchesItems ps []
  | anyText :: ps, c :: cs => matchesItems ps (c :: cs) || matchesItems (anyText :: ps) cs
  | _ :: _, [] => false
  | p :: ps, c :: cs => p.accepts c && matchesItems ps cs
termination_by ps cs => ps.length + cs.length

end Wildcard

def fitsPattern (pattern name : String) : Bool :=
  Wildcard.matchesItems (Wildcard.itemsFrom 0 pattern.toList) name.toList

end VbaTrace.CommandLine
