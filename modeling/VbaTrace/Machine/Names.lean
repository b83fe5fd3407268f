import VbaTrace.Library.Constants
import VbaTrace.Machine.Basic
import VbaTrace.Text.Case

/-!
Names and what they stand for. Case does not matter. A name is looked for among the locals of the
frame, then among the global names, then in the library; inside a `With` block first with the name of
the block before it.
-/

set_option autoImplicit false

namespace VbaTrace

namespace Value

/-- The value is a block of statements, as procedures and counting loops are; an assignment does not
replace it. Token lists answer to every question, hence also to this one. -/
def isProcedure : Value → Bool
  | node (.sub ..) | node (.function ..) | node (.forLoop ..) | node (.forEach ..) => true
  | tokens _ => true
  | _ => false

end Value

namespace Machine

/-- What a name stands for, without regard to `With` blocks. -/
def lookup (m : Machine) (name : String) : Option Value :=
  let key := Text.lower name
  match m.frame.locals.find? key with
  | some v => some v
  | none =>
    match m.globals.find? key with
    | some v => some v
    | none => Library.entry? key

/-- A global name that an assignment may change. -/
def assignsGlobal (m : Machine) (key : String) : Bool :=
  !m.frame.locals.has key && (m.globals.find? key).any fun v ↦ !v.isProcedure

/-- Assigns to a name in lower case: to the local or else the global of this name, or to a new
local. -/
def assignKey (m : Machine) (key : String) (value : Value) (type : Option Value) : Machine :=
  let m :=
    if m.assignsGlobal key then { m with globals := m.globals.put key value }
    else { m with frame := { m.frame with locals := m.frame.locals.put key value } }
  match type with
  | some t => { m with frame := { m.frame with types := m.frame.types.put key t } }
  | none => m

/-- Assigns to a name, and inside a `With` block also to the name with that of the block before it.
The value is shareable. -/
def assign (m : Machine) (name : String) (value : Value) (type : Option Value) : Machine :=
  let key := Text.lower name
  let m' := m.assignKey key value type
  if m'.frame.withName.isEmpty then m'
  else m'.assignKey (Text.lower (m'.frame.withName ++ key)) value type

end Machine

/-- What a value stands for when it is taken as a name. -/
def fetch (name : Value) : Eval Value := do
  let m ← get
  let shown ← displayed name
  match m.lookup (m.frame.withName ++ shown) with
  | some v => return v
  | none =>
    match name with
    | .text s =>
      match m.lookup s with
      | some v => return v
      | none => throw (.unknownName (Text.quoted (Text.lower s)))
    | v => throw (.unknownName (m.heap.resolve v).quoted)

/-- Assigns to a name; a value that is no text names nothing, and nothing is assigned. -/
def store (name value : Value) (type : Option Value) : Eval Unit := do
  match name with
  | .text s =>
    let v ← share value
    modify fun m ↦ m.assign s v type
  | _ => return ()

/-- The declared type of a name, null when there is none. -/
def typeOf (name : Value) : Eval Value := do
  match name with
  | .text s => return ((← get).frame.types.find? (Text.lower s)).getD .null
  | _ => return .null

end VbaTrace
