import VbaTrace.Machine.Constants
import VbaTrace.Machine.Heap
import VbaTrace.Machine.Paths
import VbaTrace.Value.Convert

/-!
The state of a running program, and evaluations over it. A frame is what one activation of a
procedure owns; the global names, the shared lists and the recorded actions outlive it. An evaluation
that fails keeps the state that it had reached.
-/

set_option autoImplicit false

namespace VbaTrace

/-- A file that is open for writing, with what was written so far. -/
structure OpenFile where
  name : Value
  contents : List Value := []

structure ClosedFile where
  name : Value
  contents : List Value

/-- What one activation of a procedure owns. -/
structure Frame where
  locals : Table Value := {}
  types : Table Value := {}
  /-- A flag for each running loop, the innermost first; it falls when the loop is left. -/
  loops : List Bool := []
  /-- The name of the enclosing `With` blocks, joined by dots. -/
  withName : String := ""
  /-- The procedure has been left. -/
  exited : Bool := false
  openFiles : Table OpenFile := {}
  closedFiles : List ClosedFile := []

/-- The global names: the constants, which every new frame resets, and all others. -/
structure Globals where
  constants : Table Value := {}
  others : Table Value := {}

namespace Globals

def find? (g : Globals) (key : String) : Option Value :=
  if isConstantName key then g.constants.find? key else g.others.find? key

def has (g : Globals) (key : String) : Bool :=
  (g.find? key).isSome

def put (g : Globals) (key : String) (value : Value) : Globals :=
  if isConstantName key then { g with constants := g.constants.put key value }
  else { g with others := g.others.put key value }

/-- Gives every constant its own value again. -/
def install (g : Globals) : Globals :=
  { g with constants := globalConstants }

def entries (g : Globals) : List (String × Value) :=
  g.constants.entries ++ g.others.entries

end Globals

/-- Something noteworthy that the program did. -/
structure Action where
  what : Value
  params : Value
  description : Value

structure Machine where
  globals : Globals := {}
  heap : Heap := {}
  actions : Array Action := #[]
  frame : Frame := {}
  /-- The properties of the document, when they were read. -/
  properties : Option (Table Value) := none
  /-- The properties that are found through the items of the document. -/
  itemProperties : Option (Table Value) := none
  /-- Counting loops end at this number, unless it is not positive. -/
  loopBound : Int := 1000000
  /-- The directory for files that the program drops, and these files by their places. -/
  dropDirectory : Option String := none
  dropped : Table (List UInt8) := {}
  /-- The file system: the place of the file that a path opens for writing from a directory, where it
  opens one. -/
  placeOf : String → String → Option String := Path.place

/-- An evaluation: it changes the machine, and gives a value or fails. -/
abbrev Eval := EStateM Fault Machine

namespace Eval

def ofExcept {α : Type} : Except Fault α → Eval α
  | .ok a => pure a
  | .error f => throw f

/-- Runs the handler, in the state then reached, when `x` fails with a fault that is `caught`. -/
def handle {α : Type} (x : Eval α) (caught : Fault → Bool) (handler : Fault → Eval α) : Eval α :=
  tryCatch x fun f ↦ if caught f then handler f else throw f

def anyFault : Fault → Bool :=
  fun _ ↦ true

end Eval

/-- A frame of its own for the activation of a procedure. The caller's frame returns afterwards,
also when the procedure fails. -/
def inNewFrame {α : Type} (x : Eval α) : Eval α := fun m ↦
  match x { m with frame := {}, globals := m.globals.install } with
  | .ok a m' => .ok a { m' with frame := m.frame }
  | .error f m' => .error f { m' with frame := m.frame }

def modifyFrame (f : Frame → Frame) : Eval Unit :=
  modify fun m ↦ { m with frame := f m.frame }

/-- Makes lists in the value shareable. -/
def share (v : Value) : Eval Value := fun m ↦
  let (w, h) := Heap.box v m.heap
  .ok w { m with heap := h }

/-- The value with all its lists as they are now. -/
def resolved (v : Value) : Eval Value := do
  return (← get).heap.resolve v

/-- The value with a list in a cell opened. -/
def opened (v : Value) : Eval Value := do
  return (← get).heap.opened v

/-- The display form of a value. -/
def displayed (v : Value) : Eval String := do
  Eval.ofExcept (← resolved v).written

/-- Fails when the value holds a number with too many digits to be written. -/
def ensureWritable (v : Value) : Eval Unit := do
  if (← resolved v).isWritable then pure () else throw .wrongValue

/-- Records an action; it is recorded even when its text cannot be written. -/
def report (what params description : Value) : Eval Unit := do
  modify fun m ↦ { m with actions := m.actions.push ⟨what, params, description⟩ }
  ensureWritable what
  ensureWritable params
  ensureWritable description

end VbaTrace
