import VbaTrace.Machine.Basic
import VbaTrace.Report.Grid

/-!
The recorded actions as a grid.
-/

set_option autoImplicit false

namespace VbaTrace.Report

def actionColumns : List Column :=
  [⟨"Action", 20⟩, ⟨"Parameters", 25⟩, ⟨"Description", 25⟩]

def actionCells (a : Action) : Eval (List String) := do
  return [← displayed a.what, ← displayed a.params, ← displayed a.description]

/-- The grid of all recorded actions; it fails when a number in it is too long to be written. -/
def actionGrid : Eval String := do
  return grid actionColumns (← (← get).actions.toList.mapM actionCells)

end VbaTrace.Report
