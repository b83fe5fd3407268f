import VbaTrace.Machine.Heap
import VbaTrace.Value.Compare

/-!
Arguments of routines: how many there are, and each of them as the routine wants it.
-/

set_option autoImplicit false

namespace VbaTrace.Library

/-- What a routine without effects gives for its arguments. -/
abbrev Answer := Except Fault Value

def require (condition : Bool) : Except Fault Unit :=
  if condition then .ok () else .error .failedAssertion

/-- The argument at a place. -/
def argument (args : List Value) (place : Nat) : Answer :=
  match args[place]? with
  | some v => .ok v
  | none => .error .outOfRange

/-- The result of a routine, which has to be writable. -/
def recorded (h : Heap) (v : Value) : Answer :=
  if (h.resolve v).isWritable then .ok v else .error .wrongValue

/-- The display form of an argument. -/
def textOf (h : Heap) (v : Value) : Except Fault String :=
  (h.resolve v).written

/-- A result that is empty whenever something fails on the way. -/
def orEmpty (x : Answer) : Value :=
  match x with
  | .ok v => v
  | .error _ => .empty

/-- The empty text in place of null. -/
def nullAsEmpty (v : Value) : Value :=
  if v.isNull then .empty else v

end VbaTrace.Library
