import VbaTrace.Value.Convert

/-!
Equality and order of values. Numbers of all kinds are compared exactly, texts by the numbers of
their characters, and lists item by item. Values of different kinds are never equal and have no
order. Lists in cells have to be resolved first.
-/

set_option autoImplicit false

namespace VbaTrace

/-- The order relations. -/
inductive Relation
  | less | lessOrEqual | greater | greaterOrEqual
deriving DecidableEq, Repr

namespace Relation

def accepts : Relation → Ordering → Bool
  | less, o => o == .lt
  | lessOrEqual, o => o != .gt
  | greater, o => o == .gt
  | greaterOrEqual, o => o != .lt

end Relation

namespace Value

def isNumber : Value → Bool
  | bool _ | int _ | float _ => true
  | _ => false

/-- The order of two numbers; an undefined number has none. -/
def compareNumbers : Value → Value → Option Ordering
  | float x, float y => Number.compareFloats x y
  | float x, v => v.asInt?.bind fun n ↦ (Number.compareWithFloat n x).map Ordering.swap
  | v, float y => v.asInt?.bind fun n ↦ Number.compareWithFloat n y
  | v, w => v.asInt?.bind fun m ↦ w.asInt?.map fun n ↦ compare m n

mutual

/-- Whether two values are equal. -/
def equals : Value → Value → Bool
  | null, null => true
  | text s, text t => s == t
  | list vs, list ws => equalAll vs ws
  | tokens t, tokens u => t.render true == u.render true
  | node n, node m => n.render == m.render
  | routine r, routine q => r == q
  | array i, array j => i == j
  | v, w => compareNumbers v w == some .eq

def equalAll : List Value → List Value → Bool
  | [], [] => true
  | v :: vs, w :: ws => equals v w && equalAll vs ws
  | _, _ => false

end

/-- Whether a list or a text begins with another one. Null begins with nothing. -/
def beginsWith (v start : Value) : Except Fault Bool :=
  if v.isNull then .ok false
  else
    match v.length?, start.length? with
    | some m, some n =>
      match v, start with
      | list vs, list ws => .ok (n ≤ m && equalAll (vs.take n) ws)
      | text s, text t => .ok (t.toList.isPrefixOf s.toList)
      | _, _ => .ok false
    | _, _ => .error .wrongType

mutual

/-- Whether an order relation holds between two values. -/
def related (r : Relation) : Value → Value → Except Fault Bool
  | text s, text t => .ok (r.accepts (compare s t))
  | list vs, list ws => relatedLists r vs ws
  | v, w =>
    if v.isNumber && w.isNumber then .ok ((compareNumbers v w).any r.accepts)
    else .error .wrongType

/-- Lists are ordered by their first items that differ, or by length. -/
def relatedLists (r : Relation) : List Value → List Value → Except Fault Bool
  | [], [] => .ok (r.accepts .eq)
  | [], _ :: _ => .ok (r.accepts .lt)
  | _ :: _, [] => .ok (r.accepts .gt)
  | v :: vs, w :: ws => if equals v w then relatedLists r vs ws else related r v w

end

end Value

end VbaTrace
