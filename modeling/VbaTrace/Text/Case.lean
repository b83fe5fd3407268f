import VbaTrace.Text.CaseTable
import VbaTrace.Text.Class

/-!
Upper and lower case of whole texts. A character may become several (the German sharp s is two
letters in upper case), and a capital sigma at the end of a word takes its final form.
-/

set_option autoImplicit false

namespace VbaTrace.Text

def firstShift (shifts : Array CaseShift) (n : Nat) : Nat :=
  (shifts.findSome? fun s ↦ s.moved? n).getD n

def isCased (c : Char) : Bool :=
  let n := c.toNat
  if n < 128 then c.isAlpha else inRuns casedRuns n

def isCaseIgnorable (c : Char) : Bool :=
  inRuns caseIgnorableRuns c.toNat

/-- The nearest character that is not ignorable is a cased one. -/
def meetsCased (cs : List Char) : Bool :=
  match cs.dropWhile isCaseIgnorable with
  | [] => false
  | c :: _ => isCased c

def capitalSigma : Char := 'Σ'

/-- Lower case of one character, given what stands before it (nearest first) and after it. -/
def lowerChar (before : List Char) (c : Char) (after : List Char) : List Char :=
  let n := c.toNat
  if n < 128 then [c.toLower]
  else if c == capitalSigma then
    if meetsCased before && !meetsCased after then ['ς'] else ['σ']
  else if n == 0x130 then ['i', Char.ofNat 0x307]
  else [Char.ofNat (firstShift lowerShifts n)]

def upperChar (c : Char) : List Char :=
  let n := c.toNat
  if n < 128 then [c.toUpper]
  else match upperExpansions.find? fun e ↦ e.1 == n with
    | some e => e.2.map Char.ofNat
    | none => [Char.ofNat (firstShift upperShifts n)]

def lowerFrom (before : List Char) : List Char → List Char
  | [] => []
  | c :: after => lowerChar before c after ++ lowerFrom (c :: before) after

def lowerChars (cs : List Char) : List Char :=
  lowerFrom [] cs

def upperChars (cs : List Char) : List Char :=
  cs.flatMap upperChar

def lower (s : String) : String :=
  String.ofList (lowerChars s.toList)

def upper (s : String) : String :=
  String.ofList (upperChars s.toList)

end VbaTrace.Text
