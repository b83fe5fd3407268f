import VbaTrace.Encoding.Base64
import VbaTrace.Library.Arguments
import VbaTrace.Text.Case
import VbaTrace.Text.Search

/-!
Routines on texts: parts of a text, searching, replacing, splitting, case, and the numbers of
characters.
-/

set_option autoImplicit false

namespace VbaTrace.Library

/-- The part of a text from place `start` on, which counts from one; the text from its beginning when
`start` is not positive. With a length, at most so many characters. -/
def middle (cs : List Char) (start : Int) (length : Option Int) : List Char :=
  if start > cs.length then []
  else
    let start := if start ≤ 0 then 1 else start
    let rest := cs.drop (start - 1).toNat
    match length with
    | none => rest
    | some n =>
      if start + n - 1 > cs.length then rest
      else if n ≤ 0 then []
      else rest.take n.toNat

def leftmost (cs : List Char) (n : Int) : List Char :=
  if n > cs.length then cs
  else if n ≤ 0 then []
  else cs.take n.toNat

def rightmost (cs : List Char) (n : Int) : List Char :=
  if n > cs.length then cs
  else if n ≤ 0 then []
  else cs.drop (cs.length - n.toNat)

/-- The whole number that an argument denotes, or zero. -/
def wholeOrZero (h : Heap) (v : Value) : Int :=
  match (h.opened v).toInt with
  | .ok n => n
  | .error _ => 0

def isDocumentName : Value → Bool
  | .text s => s == "ActiveDocument"
  | _ => false

/-- The name of the document may stand before the arguments. -/
def mid (h : Heap) (args : List Value) : Answer := do
  let args := if args.head?.any isDocumentName then args.tail else args
  require (args.length == 2 || args.length == 3)
  let v ← argument args 0
  if v.isNull then return .null
  let s ← textOf h v
  let start := wholeOrZero h (← argument args 1)
  let length := args[2]?.map (wholeOrZero h)
  return .ofChars (middle s.toList start length)

/-- The last two arguments count. -/
def sidePart (part : List Char → Int → List Char) (h : Heap) (args : List Value) : Answer := do
  let args := args.drop (args.length - 2)
  require (args.length == 2)
  let v ← argument args 0
  if v.isNull then return .null
  let s ← textOf h v
  return .ofChars (part s.toList (wholeOrZero h (← argument args 1)))

def length (h : Heap) (args : List Value) : Answer := do
  match (h.opened (← argument args 0)).length? with
  | some n => return .int n
  | none => throw .wrongType

/-- Trims a text; a whole number is written instead. -/
def trimmed (trim : List Char → List Char) (h : Heap) (args : List Value) : Answer := do
  require (!args.isEmpty)
  let v ← argument args 0
  if v.isInt then return .text (← v.written)
  match v with
  | .text s => return .ofChars (trim s.toList)
  | v => throw (h.opened v).lacking

def firstCode (h : Heap) (args : List Value) : Answer := do
  require (args.length == 1)
  let v ← argument args 0
  if v.isInt then recorded h v
  else
    match (← textOf h v).toList with
    | c :: _ => return .int c.toNat
    | [] => throw .outOfRange

/-- Converts the case of a text, or puts a null character behind each of its characters. -/
def convertText (conversion : Int) (s : String) : String :=
  if conversion == 1 then Text.upper s
  else if conversion == 2 then Text.lower s
  else if conversion == 64 then String.ofList (s.toList.flatMap fun c ↦ [c, Char.ofNat 0])
  else s

/-- The text of the characters with the given numbers; numbers that no character has are dropped. -/
def textOfCodes (codes : List Int) : String :=
  String.ofList ((codes.filter (0 < ·)).filterMap Value.charOf?)

def strConv (h : Heap) (args : List Value) : Answer := do
  require (!args.isEmpty)
  let conversion ←
    match args[1]? with
    | some v => (h.opened v).toInt
    | none => .ok 0
  let v ← argument args 0
  match h.opened v with
  | .text s => return .text (convertText conversion s)
  | .list items =>
    match items.mapM Value.asInt? with
    | some codes => return .text (textOfCodes codes)
    | none => return .empty
  | _ => recorded h v

def split (h : Heap) (args : List Value) : Answer := do
  require (!args.isEmpty)
  let separator := args.getD 1 (.text ",")
  match h.opened (← argument args 0) with
  | .text s =>
    match h.opened separator with
    | .text sep =>
      if sep.isEmpty then throw .wrongValue
      return .list ((Text.splitOn sep.toList s.toList).map .ofChars)
    | .null => return .list ((Text.words s.toList).map .ofChars)
    | _ => throw .wrongType
  | v => throw v.lacking

def strReverse (h : Heap) (args : List Value) : Answer := do
  require (!args.isEmpty)
  match h.opened (nullAsEmpty (← argument args 0)) with
  | .text s => return .ofChars s.toList.reverse
  | .list vs => recorded h (.list vs.reverse)
  | .tokens t => recorded h (.list t.items.reverse)
  | _ => throw .wrongType

def replace (h : Heap) (args : List Value) : Answer := do
  require (args.length == 3)
  let pattern := nullAsEmpty (← argument args 1)
  let new := nullAsEmpty (← argument args 2)
  match h.opened (nullAsEmpty (← argument args 0)) with
  | .text s =>
    match pattern, new with
    | .text p, .text r => return .text (Text.replace p r s)
    | _, _ => throw .wrongType
  | v => throw v.lacking

/-- Where to start, where to search, and what for. A whole number before the two is the place to
start from, which counts from one. -/
def searchArguments (args : List Value) : Except Fault (Nat × Value × Value) := do
  require (args.length ≥ 2)
  let first ← argument args 0
  match first.asInt? with
  | some n => return ((n - 1).toNat, ← argument args 1, ← argument args 2)
  | none => return (0, nullAsEmpty first, nullAsEmpty (← argument args 1))

/-- The place of an item in a list, by equality. -/
def placeOf? (h : Heap) (v : Value) (vs : List Value) : Option Nat :=
  vs.findIdx? fun w ↦ (h.resolve w).equals (h.resolve v)

/-- The first or last place of one text in another, counted from one, and zero when it is nowhere.
What occurs only before the starting place is an error. -/
def search (last : Bool) (h : Heap) (args : List Value) : Answer := do
  let (start, within, what) ← searchArguments args
  let within := h.opened within
  let what := h.opened what
  match within.length? with
  | none => throw .wrongType
  | some 0 => return .int 0
  | some n =>
    match what.length? with
    | none => throw .wrongType
    | some 0 => recorded h (.int start)
    | some _ =>
      if start > n then return .int 0
      match within, what with
      | .text s, .text p =>
        if !Text.occursIn p.toList s.toList then return .int 0
        let rest := s.toList.drop start
        let found := if last then Text.findLast? p.toList rest else Text.find? p.toList rest
        match found with
        | some i => return .int (i + start + 1)
        | none => throw .wrongValue
      | .text _, _ => throw .wrongType
      | .list vs, p =>
        if (placeOf? h p vs).isNone then return .int 0
        if last then throw .noMember
        match placeOf? h p (vs.drop start) with
        | some i => return .int (i + start + 1)
        | none => throw .wrongValue
      | _, _ => return .int 0

def changeCase (change : String → String) (h : Heap) (args : List Value) : Answer := do
  return .text (change (← textOf h (← argument args 0)))

def environ (h : Heap) (args : List Value) : Answer := do
  return .text ("%" ++ Text.upper (← textOf h (← argument args 0)) ++ "%")

def base64Decode (h : Heap) (args : List Value) : Answer := do
  require (args.length == 1)
  match h.opened (nullAsEmpty (← argument args 0)) with
  | .text s => return .text (Encoding.bytesAsText (← Encoding.decodeBase64 s.toList))
  | _ => throw .wrongType

/-- The middle one of three numbers between slashes, where there are three parts. -/
def day (h : Heap) (args : List Value) : Answer := do
  require (args.length == 1)
  let s ← textOf h (nullAsEmpty (← argument args 0))
  match Text.splitOn ['/'] s.toList with
  | [_, middle, _] =>
    match Decimal.readInt? (String.ofList middle) with
    | some n => return .int n
    | none => return .text s
  | _ => return .text s

def asText (h : Heap) (args : List Value) : Answer := do
  require (args.length == 1)
  return .text (← textOf h (← argument args 0))

end VbaTrace.Library
