import VbaTrace.Text.Search

/-!
Breaking a text into lines of a given length. The text is cut into chunks, which are runs of spaces,
words, dashes between words, and parts of hyphenated words; a line takes as many chunks as fit. A
chunk that is longer than a line is broken, behind a hyphen if that is possible. Spaces at a line
break are dropped.
-/

set_option autoImplicit false

namespace VbaTrace.Text

/-- The spaces at which lines break; spaces of other scripts do not count. -/
def isBreakSpace (c : Char) : Bool :=
  c == ' ' || (9 ≤ c.toNat && c.toNat ≤ 13)

/-- Letters and underscores, but no digits. -/
def isWordLetter (c : Char) : Bool :=
  isWordChar c && !isDigit c

/-- Characters that can end a word before a dash. -/
def endsWord (c : Char) : Bool :=
  isWordChar c || ['!', '"', '\'', '&', '.', ',', '?'].contains c

/-- The length of a run of two or more hyphens that a word follows. -/
def dashLength? (cs : List Char) : Option Nat :=
  let run := cs.takeWhile (· == '-')
  if 2 ≤ run.length && (cs[run.length]?).any isWordChar then some run.length else none

/-- A hyphen joins the letters around it; `before` is what stands before it, reversed, and `after`
what follows it. -/
def joinsLetters (before after : List Char) : Bool :=
  (match before with
    | a :: '-' :: b :: _ => isWordLetter a && isWordLetter b
    | a :: b :: _ => isWordLetter a && isWordLetter b
    | _ => false) &&
  (match after with
    | a :: '-' :: b :: _ => isWordLetter a && isWordLetter b
    | a :: b :: _ => isWordLetter a && isWordLetter b
    | _ => false)

/-- How many more characters belong to a word; `before` is what stands before them, reversed. -/
def wordLength (before : List Char) : List Char → Nat
  | [] => 0
  | c :: cs =>
    if c == '-' && joinsLetters before cs then 1
    else if isBreakSpace c then 0
    else if before.head?.any endsWord && (dashLength? (c :: cs)).isSome then 0
    else wordLength (c :: before) cs + 1

/-- The length of the first chunk of a text after `before`, which is reversed. -/
def chunkLength (before : List Char) : List Char → Nat
  | [] => 0
  | c :: cs =>
    if isBreakSpace c then (cs.takeWhile isBreakSpace).length + 1
    else
      match dashLength? (c :: cs) with
      | some n => if before.head?.any endsWord then n else wordLength (c :: before) cs + 1
      | none => wordLength (c :: before) cs + 1

/-- Cuts a text into chunks; `chunk` is the present one, reversed, and takes `more` characters. -/
def chunksFrom (before chunk : List Char) : Nat → List Char → List (List Char)
  | _, [] => if chunk.isEmpty then [] else [chunk.reverse]
  | more + 1, c :: cs => chunksFrom (c :: before) (c :: chunk) more cs
  | 0, c :: cs =>
    let rest := chunksFrom (c :: before) [c] (chunkLength before (c :: cs) - 1) cs
    if chunk.isEmpty then rest else chunk.reverse :: rest

def chunks (cs : List Char) : List (List Char) :=
  chunksFrom [] [] 0 cs

/-- The chunks that fit into a line with room for `room` characters, and the others. -/
def takeFitting (room : Nat) : List (List Char) → List (List Char) × List (List Char)
  | [] => ([], [])
  | c :: cs =>
    if c.length ≤ room then
      let (line, rest) := takeFitting (room - c.length) cs
      (c :: line, rest)
    else ([], c :: cs)

/-- Where a chunk is broken that has room for `room` characters: behind its last hyphen that fits,
unless only hyphens stand before that. -/
def breakAt (room : Nat) (chunk : List Char) : Nat :=
  match findLast? ['-'] (chunk.take room) with
  | some n => if (chunk.take n).any (· != '-') then n + 1 else room
  | none => room

/-- The first line of some chunks, and the chunks that remain. A chunk longer than a whole line fills
up the line that it does not fit in. -/
def firstLine (width : Nat) (cs : List (List Char)) : List (List Char) × List (List Char) :=
  let (line, rest) := takeFitting width cs
  match rest with
  | [] => (line, [])
  | c :: more =>
    if width < c.length then
      let n := breakAt (width - line.flatten.length) c
      (line ++ [c.take n], c.drop n :: more)
    else (line, rest)

def isBlankChunk (c : List Char) : Bool :=
  c.all isBlank

/-- A line without a blank chunk at its end. -/
def withoutLastBlank (line : List (List Char)) : List (List Char) :=
  if line.getLast?.any isBlankChunk then line.dropLast else line

/-- Lines of chunks, at most `count` of them. A line after the first does not begin with spaces. -/
def linesOf (width : Nat) : Nat → Bool → List (List Char) → List (List Char)
  | 0, _, _ => []
  | _ + 1, _, [] => []
  | count + 1, isFirst, c :: cs =>
    let (line, rest) := firstLine width (if !isFirst && isBlankChunk c then cs else c :: cs)
    let line := withoutLastBlank line
    if line.isEmpty then linesOf width count isFirst rest
    else line.flatten :: linesOf width count false rest

/-- The lines of a text; each round uses up a character, so that there are no more lines than
characters. -/
def wrap (width : Nat) (cs : List Char) : List (List Char) :=
  linesOf width (cs.length + 1) true (chunks cs)

end VbaTrace.Text
