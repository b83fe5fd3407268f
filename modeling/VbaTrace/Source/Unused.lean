import VbaTrace.Text.Case
import VbaTrace.Text.Search

/-!
Removal of assignments to names that occur nowhere else. A name counts as used when a line that does
not assign it has it anywhere in its text.
-/

set_option autoImplicit false

namespace VbaTrace.Source

/-- The names before equals signs: `word` is the last word, reversed, and `within` tells whether it
still goes on. -/
def assignedFrom (word : List Char) (within : Bool) : List Char → List (List Char)
  | [] => []
  | c :: cs =>
    if Text.isWordChar c then
      if within then assignedFrom (c :: word) true cs else assignedFrom [c] true cs
    else if Text.isBlank c then assignedFrom word false cs
    else if c == '=' && !word.isEmpty then word.reverse :: assignedFrom [] false cs
    else assignedFrom [] false cs

def assignedNames (line : List Char) : List (List Char) :=
  assignedFrom [] false line

/-- Lines in which an equals sign compares, or sets a member of a `With` block, or which continue on
the next line, are not taken for assignments. -/
def isExempt (line : List Char) : Bool :=
  let bare := Text.trim line
  ['_'].isSuffixOf bare ||
    ["If ", "For ", "Do ", "."].any (fun start ↦ start.toList.isPrefixOf bare) ||
    "let .".toList.isPrefixOf (Text.lowerChars bare)

/-- A line and the names that it assigns. -/
structure CodeLine where
  text : List Char
  assigned : List (List Char)

def CodeLine.of (text : List Char) : CodeLine :=
  ⟨text, if isExempt text then [] else assignedNames text⟩

/-- Every line with the name in it assigns it. -/
def isUnused (lines : List CodeLine) (name : List Char) : Bool :=
  lines.all fun l ↦ l.assigned.contains name || !Text.occursIn name l.text

def CodeLine.isUseless (lines : List CodeLine) (l : CodeLine) : Bool :=
  !l.assigned.isEmpty && l.assigned.all (isUnused lines)

/-- The text without assignments to unused names; a line end follows every line. -/
def withoutUnused (code : String) : String :=
  let lines := (Text.splitOn ['\n'] code.toList).map CodeLine.of
  let kept := lines.filter fun l ↦ !l.isUseless lines
  String.ofList (kept.flatMap fun l ↦ l.text ++ ['\n'])

end VbaTrace.Source
