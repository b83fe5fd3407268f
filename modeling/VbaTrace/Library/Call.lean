import VbaTrace.Library.Files
import VbaTrace.Library.Numbers
import VbaTrace.Library.Texts
import VbaTrace.Machine.Names

/-!
Calls of built-in routines. Arguments may be missing altogether, which only the routines that ignore
them allow. A routine that runs a procedure by its name is given the means to evaluate it.
-/

set_option autoImplicit false

namespace VbaTrace

/-- The arguments of a call, where there are any. -/
abbrev Arguments := Option (List Value)

/-- Evaluation of a value with arguments. -/
abbrev Evaluator := Value → Arguments → Eval Value

namespace Library

def array (h : Heap) (args : List Value) : Answer :=
  recorded h (.list args)

def upperBound (h : Heap) (args : List Value) : Answer := do
  require (!args.isEmpty)
  match (h.opened (← argument args 0)).length? with
  | some n => return .int ((n : Int) - 1)
  | none => throw .wrongType

def lowerBound (args : List Value) : Answer := do
  require (!args.isEmpty)
  return .int 0

def choose (h : Heap) (args : List Value) : Answer := do
  require (args.length == 3)
  if (h.opened (← argument args 0)).truthy then argument args 1 else argument args 2

def dir (args : List Value) : Answer := do
  require (!args.isEmpty)
  return .empty

/-- A number from zero up to one; every run takes the same. -/
def sampleNumber : Float := 0.5

/-- The routines without effects. -/
def answer? (r : Routine) (h : Heap) (args : List Value) : Option Answer :=
  match r with
  | .len | .lenB => some (length h args)
  | .mid => some (mid h args)
  | .left => some (sidePart leftmost h args)
  | .right => some (sidePart rightmost h args)
  | .array => some (array h args)
  | .uBound => some (upperBound h args)
  | .lBound => some (lowerBound args)
  | .trim => some (trimmed Text.trim h args)
  | .rTrim => some (trimmed Text.trimRight h args)
  | .lTrim => some (trimmed Text.trimLeft h args)
  | .ascW | .ascB => some (firstCode h args)
  | .strConv => some (strConv h args)
  | .split => some (split h args)
  | .int | .cInt => some (int h args)
  | .oct => some (oct h args)
  | .strReverse => some (strReverse h args)
  | .replace => some (replace h args)
  | .inStr => some (search false h args)
  | .inStrRev => some (search true h args)
  | .sgn => some (lenient sgn h args)
  | .sqr => some (lenient sqr h args)
  | .abs => some (lenient abs h args)
  | .fix => some (lenient (rounded Number.floor?) h args)
  | .round => some (lenient (rounded Number.round?) h args)
  | .hex => some (lenient hex h args)
  | .cByte => some (lenient cByte h args)
  | .cLng => some (lenient cLng h args)
  | .cBool => some (cBool args)
  | .cDate => some (cDate args)
  | .cStr | .str => some (asText h args)
  | .cSng => some (cSng h args)
  | .atn => some (lenient atn h args)
  | .tan => some (lenient (bounded Float.tan) h args)
  | .cos => some (lenient (bounded Float.cos) h args)
  | .sin => some (lenient (bounded Float.sin) h args)
  | .exp => some (lenient exp h args)
  | .log => some (log h args)
  | .string => some (string h args)
  | .dir => some (dir args)
  | .rgb => some (rgb h args)
  | .val => some (val args)
  | .base64Decode | .base64DecodeString => some (base64Decode h args)
  | .pmt => some (pmt h args)
  | .day => some (day h args)
  | .uCase => some (changeCase Text.upper h args)
  | .lCase => some (changeCase Text.lower h args)
  | .environ => some (environ h args)
  | .iIf => some (choose h args)
  | _ => none

def msgBox (args : List Value) : Eval Value := do
  report (.text "Display Message") (← Eval.ofExcept (argument args 0)) (.text "MsgBox")
  return .int 1

def isNamed (name : String) : Value → Bool
  | .text s => s == name
  | _ => false

/-- Drops the first item with a name; nothing when there is none. -/
def dropNamed? (name : String) (args : List Value) : Option (List Value) :=
  if args.any (isNamed name) then some (args.eraseP (isNamed name)) else none

/-- The names of the document and, with it, of its properties do not count as the command. -/
def commandArguments (args : List Value) : List Value :=
  match dropNamed? "ThisDocument" args with
  | none => args
  | some args => (dropNamed? "BuiltInDocumentProperties" args).getD args

def shell (args : List Value) : Eval Value := do
  let command ← Eval.ofExcept (argument (commandArguments args) 0)
  ensureWritable command
  report (.text "Execute Command") command (.text "Shell function")
  return .int 0

/-- A property of the document, by its name in any case; empty when it is not known. -/
def documentProperty (args : List Value) : Eval Value := do
  Eval.ofExcept (require (args.length == 1))
  let property ← opened (args.getD 0 .null)
  match (← get).properties with
  | none => return .empty
  | some properties =>
    match property with
    | .text s =>
      match properties.find? (Text.lower s) with
      | some v =>
        ensureWritable v
        return v
      | none => return .empty
    | v => throw v.lacking

/-- Runs what the first argument names with the other arguments. That there is no such name is no
failure. -/
def run (evaluate : Evaluator) (args : List Value) : Eval Value := do
  Eval.ofExcept (require (args.length ≥ 1))
  let name := args.getD 0 .null
  let rest := if args.length > 1 then some args.tail else none
  Eval.handle (do evaluate (← fetch name) rest) Fault.isMissing fun _ ↦
    if name.isText then return .null else throw .wrongType

end Library

/-- Calls a routine. -/
def Routine.call (evaluate : Evaluator) (r : Routine) (arguments : Arguments) : Eval Value :=
  match r with
  | .randomize => return .empty
  | .rnd => return .float Library.sampleNumber
  | .curDir => return .text "~"
  | .createObject => return .null
  | r =>
    match arguments with
    | none => throw .wrongType
    | some args =>
      match r with
      | .msgBox => Library.msgBox args
      | .shell => Library.shell args
      | .builtInDocumentProperties | .item => Library.documentProperty args
      | .close => Library.close args
      | .put => Library.put args
      | .run => Library.run evaluate args
      | r => do
        match Library.answer? r (← get).heap args with
        | some answer => Eval.ofExcept answer
        | none => return .null

end VbaTrace
