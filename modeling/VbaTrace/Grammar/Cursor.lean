import VbaTrace.Text.Case

/-!
A position in a text: how many characters lie before it, the last of them, and the rest of the text.
-/

set_option autoImplicit false

namespace VbaTrace.Grammar

structure Cursor where
  offset : Nat
  before : Option Char
  rest : List Char

namespace Cursor

def start (text : List Char) : Cursor := ⟨0, none, text⟩

/-- One character further, when there is one. -/
def step : Cursor → Cursor
  | ⟨o, b, []⟩ => ⟨o, b, []⟩
  | ⟨o, _, c :: cs⟩ => ⟨o + 1, some c, cs⟩

def advance : Nat → Cursor → Cursor
  | 0, c => c
  | n + 1, c => advance n c.step

/-- Past the longest run of characters that satisfy `p`. -/
def skipWhile (p : Char → Bool) (c : Cursor) : Cursor :=
  go c.offset c.before c.rest
where
  go (offset : Nat) (before : Option Char) : List Char → Cursor
    | [] => ⟨offset, before, []⟩
    | d :: ds => if p d then go (offset + 1) (some d) ds else ⟨offset, before, d :: ds⟩

/-- The text from `c` up to `d`, when `d` lies after `c`. -/
def textTo (c d : Cursor) : String :=
  String.ofList (c.rest.take (d.offset - c.offset))

/-- At the start of the text or right after a line feed. -/
def atLineStart (c : Cursor) : Bool :=
  c.before.all (· == '\n')

def atEnd (c : Cursor) : Bool := c.rest.isEmpty

end Cursor

end VbaTrace.Grammar
