import VbaTrace.Grammar.Cursor

/-!
The smallest elements of the grammar: fixed words and signs, runs of characters of a class, digits
with a sign, and quoted texts. A lexeme is matched at a cursor and yields the cursor behind it with
the text that stands for it.
-/

set_option autoImplicit false

namespace VbaTrace.Grammar

/-- The blanks that may be passed over before an element. -/
inductive Blanks
  /-- Space, tab and the end-of-medium character. -/
  | inline
  /-- Space, tab and the line breaks. -/
  | breaking
deriving DecidableEq, Repr

def Blanks.holds : Blanks → Char → Bool
  | inline, c => c == ' ' || c == '\t' || c == '\x19'
  | breaking, c => c == ' ' || c == '\n' || c == '\t' || c == '\r'

inductive CharSet
  | letters
  | identifierChars
  | octalDigits
  | hexDigits
  | inlineBlanks
  | listed (cs : List Char)
deriving DecidableEq, Repr

def CharSet.holds : CharSet → Char → Bool
  | letters, c => c.isAlpha
  | identifierChars, c => c.isAlphanum || c == '_'
  | octalDigits, c => '0' ≤ c && c ≤ '7'
  | hexDigits, c => c.isDigit || ('a' ≤ c && c ≤ 'f') || ('A' ≤ c && c ≤ 'F')
  | inlineBlanks, c => Blanks.inline.holds c
  | listed cs, c => cs.contains c

inductive Lexeme
  /-- Exactly this text. -/
  | exact (text : List Char)
  /-- This text in any case; it is given back as spelled here. -/
  | caseless (text : List Char)
  /-- This text in any case, not next to a letter, digit, underscore or dollar sign. -/
  | keyword (text : List Char)
  /-- One character of the first set and all that follow in the second. -/
  | word (first more : CharSet)
  /-- One character of the set. -/
  | sign (set : CharSet)
  /-- One character of the set, not followed by another. -/
  | loneSign (set : CharSet)
  /-- One or more characters, none of them in the list. -/
  | except (stops : List Char)
  /-- One character that is not in the list. -/
  | oneExcept (stops : List Char)
  /-- Decimal digits with an optional sign. -/
  | signedDigits
  /-- A text between quotes on one line; `doubled` allows the quote inside when written twice, and
  `bare` gives back what stands between the quotes. -/
  | quoted (quote : Char) (doubled bare : Bool)
  | lineStart
  /-- Nothing. -/
  | nothing
deriving DecidableEq, Repr

/-- Characters that may not touch a keyword. -/
def touchesKeyword (c : Char) : Bool :=
  match Text.upperChar c with
  | [u] => u.isUpper || u.isDigit || u == '_' || u == '$'
  | _ => false

/-- Matches a word of ASCII characters in any case. -/
def caselessMatch : List Char → Cursor → Option Cursor
  | [], c => some c
  | w :: ws, c =>
    match c.rest with
    | [] => none
    | d :: ds =>
      if (if d.toNat < 128 then d.toUpper == w.toUpper else Text.upperChar d == [w.toUpper]) then
        caselessMatch ws ⟨c.offset + 1, some d, ds⟩
      else none

def exactMatch : List Char → Cursor → Option Cursor
  | [], c => some c
  | w :: ws, c =>
    match c.rest with
    | [] => none
    | d :: ds => if d == w then exactMatch ws ⟨c.offset + 1, some d, ds⟩ else none

/-- Where the closing quote can stand, read from behind the opening quote: the number of characters
before it. A doubled quote is passed over where that still leaves a closing quote. -/
def closingQuote (quote : Char) (doubled : Bool) : List Char → Nat → Option Nat
  | [], _ => none
  | [c], n => if c == quote then some n else none
  | c :: d :: cs, n =>
    if c == quote then
      if doubled && d == quote then
        match closingQuote quote doubled cs (n + 2) with
        | some m => some m
        | none => some n
      else some n
    else if c == '\n' || c == '\r' then none
    else closingQuote quote doubled (d :: cs) (n + 1)

/-- Replaces a backslash followed by `letter` with `char`. -/
def replaceEscape (letter char : Char) : List Char → List Char
  | [] => []
  | [c] => [c]
  | c :: d :: cs =>
    if c == '\\' && d == letter then char :: replaceEscape letter char cs
    else c :: replaceEscape letter char (d :: cs)

def undouble (quote : Char) : List Char → List Char
  | [] => []
  | [c] => [c]
  | c :: d :: cs =>
    if c == quote && d == quote then quote :: undouble quote cs
    else c :: undouble quote (d :: cs)

/-- What a quoted text stands for: the escapes for tab, line feed, form feed and carriage return are
replaced, one kind after the other, and then doubled quotes are read as one. -/
def unquote (quote : Char) (doubled : Bool) (cs : List Char) : List Char :=
  let cs := replaceEscape 't' '\t' cs
  let cs := replaceEscape 'n' '\n' cs
  let cs := replaceEscape 'f' '\x0C' cs
  let cs := replaceEscape 'r' '\r' cs
  if doubled then undouble quote cs else cs

namespace Lexeme

/-- The blanks that are passed over before the lexeme, if any. -/
def blanks : Lexeme → Option Blanks
  | except _ | oneExcept _ => none
  | signedDigits => some .breaking
  | _ => some .inline

/-- The cursor behind the lexeme and its text; `none` as text stands for no token. -/
def scan (l : Lexeme) (c : Cursor) : Option (Cursor × Option String) :=
  match l with
  | exact text => (exactMatch text c).map (·, some (String.ofList text))
  | caseless text => (caselessMatch text c).map (·, some (String.ofList text))
  | keyword text =>
    match caselessMatch text c with
    | none => none
    | some d =>
      if c.before.any touchesKeyword || d.rest.head?.any touchesKeyword then none
      else some (d, some (String.ofList text))
  | word first more =>
    match c.rest with
    | [] => none
    | d :: _ =>
      if first.holds d then
        let e := c.step.skipWhile more.holds
        some (e, some (c.textTo e))
      else none
  | sign set =>
    match c.rest with
    | [] => none
    | d :: _ => if set.holds d then some (c.step, some (String.singleton d)) else none
  | loneSign set =>
    match c.rest with
    | [] => none
    | d :: ds =>
      if set.holds d && !(ds.head?.any set.holds) then some (c.step, some (String.singleton d))
      else none
  | except stops =>
    let d := c.skipWhile fun x ↦ !stops.contains x
    if d.offset == c.offset then none else some (d, some (c.textTo d))
  | oneExcept stops =>
    match c.rest with
    | [] => none
    | d :: _ => if stops.contains d then none else some (c.step, some (String.singleton d))
  | signedDigits =>
    let signed :=
      match c.rest with
      | '+' :: _ | '-' :: _ => c.step
      | _ => c
    let d := signed.skipWhile Text.isDigit
    if d.offset == signed.offset then none else some (d, some (c.textTo d))
  | quoted quote doubled bare =>
    match c.rest with
    | [] => none
    | d :: ds =>
      if d == quote then
        match closingQuote quote doubled ds 0 with
        | none => none
        | some n =>
          let text :=
            if bare then String.ofList (unquote quote doubled (ds.take n))
            else String.ofList (c.rest.take (n + 2))
          some (c.advance (n + 2), some text)
      else none
  | lineStart => if c.atLineStart then some (c, none) else none
  | nothing => some (c, none)

end Lexeme

end VbaTrace.Grammar
