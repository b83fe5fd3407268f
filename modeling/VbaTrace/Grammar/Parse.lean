import Std.Data.TreeMap
import VbaTrace.Grammar.Run
import VbaTrace.Grammar.Table
import VbaTrace.Text.Tabs

/-!
Reading a text with a rule. The depth of nested rules is bounded by a number that no text reaches:
the grammar has no rule that can start with itself, so between two consumed characters fewer rules
nest than there are. Results are remembered per rule, mode and position; `runRule` is the same
reading without the memory.
-/

set_option autoImplicit false

namespace VbaTrace.Grammar

/-- Matches a rule at a cursor, with at most `depth` nested rules. -/
def runRule : Nat → Rule → Mode → Cursor → Outcome
  | 0, _, _, _ => .exhausted
  | depth + 1, r, mode, c =>
    Id.run ((Pattern.ofRule r).run (fun r mode c ↦ pure (runRule depth r mode c)) false mode c)

/-- The outcomes found so far. -/
abbrev Memory := Std.TreeMap Nat Outcome

/-- The key of an outcome in the memory. -/
def memoryKey (r : Rule) (mode : Mode) (c : Cursor) : Nat :=
  ((c.offset * 2048 + r.code) * 2 + mode.builds.toNat) * 2 + mode.tight.toNat

/-- `runRule` with a memory of earlier outcomes. -/
def recallRule : Nat → Rule → Mode → Cursor → StateM Memory Outcome
  | 0, _, _, _ => pure .exhausted
  | depth + 1, r, mode, c => do
    let key := memoryKey r mode c
    match (← get)[key]? with
    | some o => pure o
    | none =>
      let o ← (Pattern.ofRule r).run (recallRule depth) false mode c
      match o with
      | .exhausted => pure ()
      | _ => modify fun memory ↦ memory.insert key o
      pure o

/-- More nested rules than reading a text of this length can need. -/
def depthBound (length : Nat) : Nat := (length + 1) * 512

/-- The result of reading: the tokens and the rest of the text. -/
structure Reading where
  tokens : Tokens
  rest : Cursor

/-- Reads the start of a text with a rule. -/
def readFront (r : Rule) (text : String) : Except Fault Reading :=
  let cs := Text.expandTabs text.toList
  let c := enter (.rule r) true .normal (Cursor.start cs)
  match (Id.run ((recallRule (depthBound cs.length) r .normal c).run {})).1 with
  | .matched d t => .ok ⟨t, d⟩
  | .failed => .error (.noMatch none)
  | .faulty f => .error f
  | .exhausted => .error .tooDeep

/-- What reading prints: a module is shown as soon as it has been read. -/
def echo (t : Tokens) : String :=
  String.join (t.items.map fun v ↦
    match v with
    | .node (.codeModule ..) => v.display ++ "\n"
    | _ => "")

/-- Where the unread rest begins: behind the blanks that follow what was read. -/
def restAfter (r : Rule) (c : Cursor) : Cursor :=
  (passBlanks r.lead .normal c).skipWhile Blanks.inline.holds

/-- The tokens of a reading that has to reach the end of the text; only blanks may remain. -/
def Reading.complete (r : Rule) (reading : Reading) : Except Fault Tokens :=
  let rest := restAfter r reading.rest
  if rest.atEnd then .ok reading.tokens else .error (.noMatch (some rest.offset))

/-- Reads a whole text with a rule. -/
def readAll (r : Rule) (text : String) : Except Fault Tokens :=
  readFront r text >>= Reading.complete r

/-- Reads a text, or all of it, and tells what is printed meanwhile. -/
def readEchoing (r : Rule) (all : Bool) (text : String) : Except Fault Tokens × String :=
  match readFront r text with
  | .error f => (.error f, "")
  | .ok reading =>
    (if all then reading.complete r else .ok reading.tokens, echo reading.tokens)

/-- All matches of a rule in a text, found from left to right without overlap. -/
def findFrom (r : Rule) (depth : Nat) : Nat → Cursor → List Tokens × Option Fault
  | 0, _ => ([], none)
  | n + 1, c =>
    let start := passBlanks r.lead .normal c
    let onward := fun d : Cursor ↦ if d.atEnd then ([], none) else findFrom r depth n d.step
    match (Id.run ((recallRule depth r .normal start).run {})).1 with
    | .matched d t =>
      if c.offset < d.offset then
        let (found, fault) := findFrom r depth n d
        (t :: found, fault)
      else onward start
    | .failed => onward start
    | .faulty f => ([], some f)
    | .exhausted => ([], some .tooDeep)

def findAll (r : Rule) (text : String) : List Tokens × Option Fault :=
  let cs := Text.expandTabs text.toList
  findFrom r (depthBound cs.length) (cs.length + 1) (Cursor.start cs)

end VbaTrace.Grammar
