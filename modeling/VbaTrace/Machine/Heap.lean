import VbaTrace.Syntax.Node

/-!
Shared lists. A variable holds a list by the number of a cell, so two variables can share one list,
and a list that is extended in place is extended for both. A list enters a cell when it is first
stored; the items of a cell are themselves numbers of earlier cells where they are lists.
-/

set_option autoImplicit false

namespace VbaTrace

mutual

/-- How deep lists nest in a value, the lists in cells not counted. -/
def Value.height : Value → Nat
  | .list vs => heightOfAll vs + 1
  | _ => 0

def heightOfAll : List Value → Nat
  | [] => 0
  | v :: vs => max v.height (heightOfAll vs)

end

structure Heap where
  cells : Array (List Value) := #[]

namespace Heap

def read (h : Heap) (cell : Nat) : List Value :=
  (h.cells[cell]?).getD []

def write (h : Heap) (cell : Nat) (items : List Value) : Heap :=
  ⟨h.cells.setIfInBounds cell items⟩

/-- Puts a list into a new cell. -/
def alloc (h : Heap) (items : List Value) : Value × Heap :=
  (.array h.cells.size, ⟨h.cells.push items⟩)

mutual

/-- Moves the lists of a value into cells, so that they can be shared. -/
def box : Value → Heap → Value × Heap
  | .list vs, h =>
    let (ws, h) := boxAll vs h
    h.alloc ws
  | v, h => (v, h)

def boxAll : List Value → Heap → List Value × Heap
  | [], h => ([], h)
  | v :: vs, h =>
    let (w, h) := box v h
    let (ws, h) := boxAll vs h
    (w :: ws, h)

end

/-- A list in a cell as a list; its items stay as they are. -/
def opened (h : Heap) : Value → Value
  | .array cell => .list (h.read cell)
  | v => v

/-- Replaces the numbers of cells by lists, at most `depth` levels deep. -/
def resolveTo (h : Heap) : Nat → Value → Value
  | 0, v => v
  | depth + 1, .array cell => .list ((h.read cell).map (h.resolveTo depth))
  | depth + 1, .list vs => .list (vs.map (h.resolveTo depth))
  | _ + 1, v => v

/-- The value with all lists in cells replaced by what they hold now. -/
def resolve (h : Heap) (v : Value) : Value :=
  match v with
  | .array _ | .list _ => h.resolveTo (h.cells.size + v.height + 1) v
  | v => v

end Heap

end VbaTrace
