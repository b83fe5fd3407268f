import VbaTrace.Text.Class
import VbaTrace.Text.WidthTable

/-!
The width of a text in columns of a terminal. A text with a control character has none, since its
place on the screen is unknown; sequences that set a colour do not count.
-/

set_option autoImplicit false

namespace VbaTrace.Text

/-- Control characters other than the null character. -/
def isControl (c : Char) : Bool :=
  let n := c.toNat
  (0 < n && n < 32) || (127 ≤ n && n < 160)

/-- The columns that a character takes on its own. -/
def columns (c : Char) : Nat :=
  let n := c.toNat
  if 32 ≤ n && n < 127 then 1
  else if inRuns zeroWidthRuns n then 0
  else if inRuns wideRuns n then 2
  else 1

def isJoiner (c : Char) : Bool :=
  c.toNat == 0x200D

def isEmojiSelector (c : Char) : Bool :=
  c.toNat == 0xFE0F

def isEmoji (c : Char) : Bool :=
  inRuns emojiRuns c.toNat

/-- Measures from left to right. A joiner hides the character after it; an emoji selector widens
`last`, the character that was measured last, once and only if that is an emoji. -/
def widthFrom (total : Nat) (last : Option Char) (hidden : Bool) : List Char → Option Nat
  | [] => some total
  | c :: cs =>
    if hidden then widthFrom total last false cs
    else if isJoiner c then widthFrom total last true cs
    else if isEmojiSelector c && last.isSome then
      widthFrom (total + (last.any isEmoji).toNat) none false cs
    else if isControl c then none
    else widthFrom (total + columns c) (if columns c == 0 then last else some c) false cs

/-- How many characters after an escape belong to a colour sequence. -/
def colourLength? : List Char → Option Nat
  | '[' :: cs =>
    let parameters := cs.takeWhile fun c ↦ ('0' ≤ c && c ≤ '9') || c == ';'
    if cs[parameters.length]? == some 'm' then some (parameters.length + 2) else none
  | '(' :: 'B' :: _ => some 2
  | _ => none

/-- The text without colour sequences; `skip` characters belong to the last one. -/
def withoutColours : Nat → List Char → List Char
  | _, [] => []
  | skip + 1, _ :: cs => withoutColours skip cs
  | 0, c :: cs =>
    if c.toNat == 27 then
      match colourLength? cs with
      | some n => withoutColours n cs
      | none => c :: withoutColours 0 cs
    else c :: withoutColours 0 cs

/-- The number of columns of a text, if it has no control character. -/
def width? (cs : List Char) : Option Nat :=
  widthFrom 0 none false (withoutColours 0 cs)

end VbaTrace.Text
