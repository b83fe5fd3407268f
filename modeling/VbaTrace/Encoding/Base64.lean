import VbaTrace.Fault

/-!
Base-64 text decoded to bytes. Characters outside the alphabet are skipped. Decoding ends at padding
that completes a group of four; a text that ends within a group is badly encoded.
-/

set_option autoImplicit false

namespace VbaTrace.Encoding

/-- The six bits that a letter of the alphabet stands for. -/
def sextet? (c : Char) : Option Nat :=
  let n := c.toNat
  if 65 ≤ n && n ≤ 90 then some (n - 65)
  else if 97 ≤ n && n ≤ 122 then some (n - 71)
  else if 48 ≤ n && n ≤ 57 then some (n + 4)
  else if c == '+' then some 62
  else if c == '/' then some 63
  else none

/-- A group in the making: how many letters it has, the padding since the last one, and the bits
that are not in a byte yet. -/
structure Group where
  letters : Nat := 0
  padding : Nat := 0
  bits : Nat := 0

/-- Decodes from within a group; `done` holds the bytes so far, last first. -/
def decodeFrom (g : Group) (done : List Nat) : List Char → Except Fault (List Nat)
  | [] => if g.letters == 0 then .ok done.reverse else .error .badEncoding
  | c :: cs =>
    if c == '=' then
      if g.letters ≥ 2 then
        if g.letters + g.padding + 1 ≥ 4 then .ok done.reverse
        else decodeFrom { g with padding := g.padding + 1 } done cs
      else decodeFrom g done cs
    else
      match sextet? c with
      | none => decodeFrom g done cs
      | some v =>
        match g.letters with
        | 0 => decodeFrom ⟨1, 0, v⟩ done cs
        | 1 => decodeFrom ⟨2, 0, v % 16⟩ ((g.bits * 4 + v / 16) :: done) cs
        | 2 => decodeFrom ⟨3, 0, v % 4⟩ ((g.bits * 16 + v / 4) :: done) cs
        | _ => decodeFrom {} ((g.bits * 64 + v) :: done) cs

/-- The bytes that a base-64 text encodes; the text has to be plain ASCII. -/
def decodeBase64 (cs : List Char) : Except Fault (List Nat) :=
  if cs.all fun c ↦ c.toNat < 128 then decodeFrom {} [] cs else .error .wrongValue

/-- The text with one character for each byte. -/
def bytesAsText (bytes : List Nat) : String :=
  String.ofList (bytes.map Char.ofNat)

end VbaTrace.Encoding
