import VbaTrace.Text.Class

/-!
Searching, cutting and joining texts as lists of characters. Positions count from zero; matches of a
pattern are found from left to right and do not overlap, unless the last match is asked for.
-/

set_option autoImplicit false

namespace VbaTrace.Text

/-- The place of the first match of a pattern. -/
def find? (pattern : List Char) : List Char → Option Nat
  | [] => if pattern.isEmpty then some 0 else none
  | c :: cs => if pattern.isPrefixOf (c :: cs) then some 0 else (find? pattern cs).map (· + 1)

/-- The place of the last match of a pattern; it may overlap an earlier one. -/
def findLast? (pattern : List Char) : List Char → Option Nat
  | [] => if pattern.isEmpty then some 0 else none
  | c :: cs =>
    match findLast? pattern cs with
    | some n => some (n + 1)
    | none => if pattern.isPrefixOf (c :: cs) then some 0 else none

def occursIn (pattern cs : List Char) : Bool :=
  (find? pattern cs).isSome

/-- Replaces the matches of a nonempty pattern; `skip` characters belong to the last match. -/
def replaceFrom (pattern new : List Char) : Nat → List Char → List Char
  | _, [] => []
  | skip + 1, _ :: cs => replaceFrom pattern new skip cs
  | 0, c :: cs =>
    if pattern.isPrefixOf (c :: cs) then
      new ++ replaceFrom pattern new (pattern.length - 1) cs
    else c :: replaceFrom pattern new 0 cs

/-- Replaces every match of a pattern. The empty pattern matches between any two characters and at
both ends. -/
def replaceAll (pattern new cs : List Char) : List Char :=
  if pattern.isEmpty then new ++ cs.flatMap fun c ↦ c :: new
  else replaceFrom pattern new 0 cs

/-- The parts between the matches of a nonempty pattern; `part` is the current one, reversed. -/
def splitFrom (pattern : List Char) : Nat → List Char → List Char → List (List Char)
  | _, part, [] => [part.reverse]
  | skip + 1, part, _ :: cs => splitFrom pattern skip part cs
  | 0, part, c :: cs =>
    if pattern.isPrefixOf (c :: cs) then
      part.reverse :: splitFrom pattern (pattern.length - 1) [] cs
    else splitFrom pattern 0 (c :: part) cs

def splitOn (pattern cs : List Char) : List (List Char) :=
  splitFrom pattern 0 [] cs

/-- The runs of characters between blanks. -/
def wordsFrom : List Char → List Char → List (List Char)
  | part, [] => if part.isEmpty then [] else [part.reverse]
  | part, c :: cs =>
    if isBlank c then
      if part.isEmpty then wordsFrom [] cs else part.reverse :: wordsFrom [] cs
    else wordsFrom (c :: part) cs

def words (cs : List Char) : List (List Char) :=
  wordsFrom [] cs

def trimLeft (cs : List Char) : List Char :=
  cs.dropWhile isBlank

def trimRight (cs : List Char) : List Char :=
  (cs.reverse.dropWhile isBlank).reverse

def trim (cs : List Char) : List Char :=
  trimRight (trimLeft cs)

/-- The characters that end a line on their own. -/
def endsLine (c : Char) : Bool :=
  let n := c.toNat
  (10 ≤ n && n ≤ 13) || (0x1C ≤ n && n ≤ 0x1E) || n == 0x85 || n == 0x2028 || n == 0x2029

/-- The lines of a text with their ends; a carriage return and a line feed are one end. -/
def linesFrom : List Char → List Char → List (List Char)
  | part, [] => if part.isEmpty then [] else [part.reverse]
  | part, '\r' :: '\n' :: cs => ('\n' :: '\r' :: part).reverse :: linesFrom [] cs
  | part, c :: cs =>
    if endsLine c then (c :: part).reverse :: linesFrom [] cs else linesFrom (c :: part) cs

def lines (cs : List Char) : List (List Char) :=
  linesFrom [] cs

/-- A line without the characters that end it. -/
def withoutLineEnd (cs : List Char) : List Char :=
  match cs.reverse with
  | '\n' :: '\r' :: rest => rest.reverse
  | c :: rest => if endsLine c then rest.reverse else cs
  | [] => []

def startsWith (front s : String) : Bool :=
  front.toList.isPrefixOf s.toList

def endsWith (tail s : String) : Bool :=
  tail.toList.isSuffixOf s.toList

def contains (part s : String) : Bool :=
  occursIn part.toList s.toList

def replace (pattern new s : String) : String :=
  String.ofList (replaceAll pattern.toList new.toList s.toList)

def trimmed (s : String) : String :=
  String.ofList (trim s.toList)

/-- What stands behind the last match of a pattern, or the whole text. -/
def afterLast (pattern s : String) : String :=
  match findLast? pattern.toList s.toList with
  | some n => String.ofList (s.toList.drop (n + pattern.length))
  | none => s

/-- What stands before the last match of a pattern, or nothing. -/
def beforeLast (pattern s : String) : String :=
  match findLast? pattern.toList s.toList with
  | some n => String.ofList (s.toList.take n)
  | none => ""

end VbaTrace.Text
