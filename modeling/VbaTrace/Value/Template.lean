import VbaTrace.Decimal.Fixed
import VbaTrace.Text.Case
import VbaTrace.Value.Convert

/-!
Text templates with one value. A percent sign starts a place: flags, a width, a precision and the
letter of a conversion follow. The value fills exactly one place, a list also none; two percent signs
stand for one.
-/

set_option autoImplicit false

namespace VbaTrace

/-- A place of a template. -/
structure Place where
  /-- The flags `-`, `+`, blank, `#` and `0` that were given. -/
  flags : List Char
  width : Nat
  precision : Option Nat
  conversion : Char

namespace Place

def has (p : Place) (flag : Char) : Bool :=
  p.flags.contains flag

def spaces (n : Nat) : String :=
  String.ofList (List.replicate n ' ')

/-- A text in its place. -/
def putText (p : Place) (s : String) : String :=
  let shown :=
    match p.precision with
    | some n => String.ofList (s.toList.take n)
    | none => s
  let pad := p.width - shown.length
  if p.has '-' then shown ++ spaces pad else spaces pad ++ shown

/-- A number in its place: its sign, a mark for its base, and its digits. -/
def putNumber (p : Place) (negative : Bool) (mark digits : String) : String :=
  let sign :=
    if negative then "-" else if p.has '+' then "+" else if p.has ' ' then " " else ""
  let pad := p.width - (sign.length + mark.length + digits.length)
  if p.has '-' then sign ++ mark ++ digits ++ spaces pad
  else if p.has '0' then sign ++ mark ++ String.ofList (List.replicate pad '0') ++ digits
  else spaces pad ++ sign ++ mark ++ digits

def putInt (p : Place) (base : Nat) (mark : String) (raise : Bool) (n : Int) : String :=
  let digits := String.ofList (Nat.toDigits base n.natAbs)
  let digits := if raise then Text.upper digits else digits
  p.putNumber (n < 0) (if p.has '#' then mark else "")
    (Decimal.padLeft (p.precision.getD 0) '0' digits)

def putFloat (p : Place) (x : Float) : String :=
  let precision := p.precision.getD 6
  let lower := p.conversion.toLower
  let body :=
    if x.isNaN then "nan"
    else if x.isInf then "inf"
    else if lower == 'e' then Decimal.writeScientific precision (p.has '#') x
    else if lower == 'f' then Decimal.writePlaces precision (p.has '#') x
    else Decimal.writeGeneral precision (p.has '#') x
  let body := if p.conversion == lower then body else Text.upper body
  p.putNumber (Decimal.isNegative x && !x.isNaN) "" body

def asciiChar (c : Char) : List Char :=
  let n := c.toNat
  if n < 0x80 then [c]
  else if n < 0x100 then '\\' :: 'x' :: Text.hexPadded 2 n
  else if n < 0x10000 then '\\' :: 'u' :: Text.hexPadded 4 n
  else '\\' :: 'U' :: Text.hexPadded 8 n

def checked (v : Value) (s : Value → String) : Except Fault String :=
  if v.isWritable then .ok (s v) else .error .wrongValue

/-- A value in its place. -/
def put (p : Place) (v : Value) : Except Fault String :=
  match p.conversion with
  | 's' => (checked v Value.display).map p.putText
  | 'r' => (checked v Value.quoted).map p.putText
  | 'a' => (checked v Value.quoted).map fun s ↦ p.putText (String.ofList (s.toList.flatMap asciiChar))
  | 'd' | 'i' | 'u' =>
    match v with
    | .float x => (Value.floatToInt x).map (p.putInt 10 "" false)
    | v =>
      match v.asInt? with
      | some n => if Decimal.isWritable n then .ok (p.putInt 10 "" false n) else .error .wrongValue
      | none => .error .wrongType
  | 'o' => whole 8 "0o" false
  | 'x' => whole 16 "0x" false
  | 'X' => whole 16 "0X" true
  | 'e' | 'E' | 'f' | 'F' | 'g' | 'G' =>
    match v with
    | .text _ => .error .wrongType
    | v => v.toFloat.map p.putFloat
  | 'c' =>
    match v with
    | .text s => if s.length == 1 then .ok (bare.putText s) else .error .wrongType
    | v =>
      match v.asInt? with
      | some n =>
        match Value.charOf? n with
        | some c => .ok (bare.putText (String.singleton c))
        | none => .error .overflow
      | none => .error .wrongType
  | _ => .error .wrongValue
where
  whole (base : Nat) (mark : String) (raise : Bool) : Except Fault String :=
    match v.asInt? with
    | some n => .ok (p.putInt base mark raise n)
    | none => .error .wrongType
  bare : Place := { p with precision := none }

end Place

/-- The number that leads a text, and the rest; no digits are zero. -/
def leadingNumber (cs : List Char) : Nat × List Char :=
  let ds := cs.takeWhile Char.isDigit
  (ds.foldl (fun n d ↦ n * 10 + (d.toNat - 48)) 0, cs.drop ds.length)

/-- Whether the parentheses that are open get closed. -/
def closes : Nat → List Char → Bool
  | 0, _ => true
  | _, [] => false
  | depth + 1, c :: cs =>
    closes (if c == ')' then depth else if c == '(' then depth + 2 else depth + 1) cs

/-- The largest width and the largest precision. -/
def widthLimit : Nat := 0x7fffffffffffffff

def precisionLimit : Nat := 0x7fffffff

/-- Whether the value can be a width or a precision; it can only if it did not fill a place yet. -/
def checkStar (v : Value) (used : Bool) (limit : Nat) : Except Fault Unit :=
  if used then .error .wrongType
  else
    match v.asInt? with
    | some n => if -(limit : Int) - 1 ≤ n && n ≤ limit then .ok () else .error .overflow
    | none => .error .wrongType

/-- A width or a precision: digits, or a star that takes the value. Gives the number, whether the
value was used, and the rest. -/
def readAmount (v : Value) (used : Bool) (limit : Nat) :
    List Char → Except Fault (Nat × Bool × List Char)
  | '*' :: cs => (checkStar v used limit).map fun _ ↦ (0, true, cs)
  | cs =>
    let (n, rest) := leadingNumber cs
    if n ≤ limit then .ok (n, used, rest) else .error .wrongValue

/-- The precision after a point. -/
def readPrecision (v : Value) (used : Bool) :
    List Char → Except Fault (Option Nat × Bool × List Char)
  | '.' :: cs => (readAmount v used precisionLimit cs).map fun (n, used, rest) ↦ (some n, used, rest)
  | cs => .ok (none, used, cs)

/-- A key in parentheses asks for a table, which no value is. -/
def keyFault (v : Value) (cs : List Char) : Fault :=
  match v with
  | .list _ | .tokens _ => if closes 1 cs then .wrongType else .wrongValue
  | _ => .wrongType

def withoutSize : List Char → List Char
  | c :: cs => if ['h', 'l', 'L'].contains c then cs else c :: cs
  | [] => []

/-- Reads a place behind its percent sign. -/
def readPlace (v : Value) (used : Bool) (cs : List Char) :
    Except Fault (Place × Bool × List Char) := do
  if let '(' :: key := cs then throw (keyFault v key)
  let flags := cs.takeWhile fun c ↦ ['-', '+', ' ', '#', '0'].contains c
  let (width, used, cs) ← readAmount v used widthLimit (cs.drop flags.length)
  let (precision, used, cs) ← readPrecision v used cs
  match withoutSize cs with
  | [] => throw .wrongValue
  | c :: rest => return (⟨flags, width, precision, c⟩, used, rest)

/-- Fills a template from left to right; every step reads at least one of `fuel` characters. -/
def fillFrom (v : Value) : Nat → Bool → List Char → Except Fault (List Char × Bool)
  | 0, used, _ => .ok ([], used)
  | _, used, [] => .ok ([], used)
  | fuel + 1, used, '%' :: '%' :: cs => do
    let (out, used) ← fillFrom v fuel used cs
    return ('%' :: out, used)
  | fuel + 1, used, '%' :: cs => do
    let (place, used, rest) ← readPlace v used cs
    if used then throw .wrongType
    let shown ← place.put v
    let (out, used) ← fillFrom v fuel true rest
    return (shown.toList ++ out, used)
  | fuel + 1, used, c :: cs => do
    let (out, used) ← fillFrom v fuel used cs
    return (c :: out, used)

/-- The template with the value in its place. -/
def fillTemplate (template : String) (v : Value) : Except Fault String := do
  let (out, used) ← fillFrom v (template.length + 1) false template.toList
  let mayStayUnused :=
    match v with
    | .list _ | .tokens _ => true
    | _ => false
  if used || mayStayUnused then return String.ofList out else throw .wrongType

end VbaTrace
