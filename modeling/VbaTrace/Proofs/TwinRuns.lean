import VbaTrace.Proofs.Pruning

/-!
Two runs, of a program with unused assignments and of the same program without them. What evaluates
expressions, guards, calls and statements alike in both (`Follows`) does so one level deeper, so
every depth of evaluation does (`follows`).
-/

set_option autoImplicit false

namespace VbaTrace

open Semantics

/-- An evaluation that skips dead statements, and what it leaves of the frame. -/
def Skips (c : Scope) (evaluate : Evaluator) (n : Node) : Prop :=
  ∀ m g l, Faces c m g l → ∃ v locals,
    evaluate (.node n) none m = .ok v { m with frame := { m.frame with locals := locals } } ∧
      Faces c { m with frame := { m.frame with locals := locals } } g l ∧
      ∀ key, m.frame.locals.has key = true → locals.has key = true

/-- The frame has the variables. -/
def Frame.Owns (keys : List String) (fr : Frame) : Prop :=
  ∀ key ∈ keys, fr.locals.has key = true

/-- Arguments without code in them. -/
def Arguments.AreData (args : Arguments) : Prop :=
  ∀ vs, args = some vs → ∀ v ∈ vs, v.IsData

/-- An evaluator under which the two runs stay side by side. -/
structure Follows (c : Scope) (evaluate : Evaluator) : Prop where
  expression : ∀ v, c.Guard v → ∀ I,
    (twins c I).Holds (evaluate v none) fun w ↦ c.Readable v → w.IsData
  callee : ∀ key v v', c.Callee key v v' → ∀ args : Arguments, args.AreData → ∀ I,
    Sim c I (evaluate v args) (evaluate v' args) (Same Value.IsData I) I
  statement : ∀ n n', c.Trims n n' → ∀ keys,
    Sim c (Frame.Owns keys) (evaluate (.node n) none) (evaluate (.node n') none)
      (fun _ _ ↦ Frame.Owns keys) fun _ ↦ True
  dead : (∀ n, c.Dead n → Skips c evaluate n) ∨
    ∀ v args m, evaluate v args m = .error .tooDeep m

theorem EvalLogic.mono {P : Value → Prop} (l : EvalLogic P) {α : Type} {x : Eval α}
    {Q R : α → Prop} (hx : l.Holds x Q) (h : ∀ a, Q a → R a) : l.Holds x R := by
  rw [← bind_pure x]
  exact l.bind hx fun a ha ↦ l.pure (h a ha)

section

variable {c : Scope} {evaluate : Evaluator} (he : Follows c evaluate) {I : Frame → Prop}

include he

/-! Expressions -/

end

/-- Evaluates statements in order, as long as `goesOn` says so; tells whether they were left. -/
def perform (evaluate : Evaluator) (goesOn : Eval Bool) : List Value → Eval Bool
  | [] => return false
  | s :: ss => do
    let _ ← evaluate s none
    if ← goesOn then perform evaluate goesOn ss else return true

section

variable {c : Scope} {evaluate : Evaluator} {R : Node → Node → Prop} {ss ts : List Value}

theorem Scope.Pruned.writable (h : c.Pruned R ss ts) :
    (∀ s ∈ ss, ensureWritable s = pure ()) ∧ ∀ t ∈ ts, ensureWritable t = pure () := by
  have hnode {n : Node} (hn : n.isWritable = true) : ensureWritable (.node n) = pure () :=
    funext (ensureWritable_node hn)
  induction h with
  | nil => simp
  | drop hd _ ih =>
    obtain ⟨-, hvalue⟩ := hd
    refine ⟨List.forall_mem_cons.mpr ⟨hnode ?_, ih.1⟩, ih.2⟩
    cases hvalue with
    | int hn => simpa [Node.isWritable, Value.isWritable] using hn
    | _ => rfl
  | keep _ hn hn' _ ih =>
    exact ⟨List.forall_mem_cons.mpr ⟨hnode hn, ih.1⟩, List.forall_mem_cons.mpr ⟨hnode hn', ih.2⟩⟩

/-- Whether the procedure goes on. -/
def staysIn (heedsExit : Bool) : Eval Bool := do
  return !(heedsExit && (← get).frame.exited)

theorem evalStatements_eq (heedsExit : Bool) (h : ∀ s ∈ ss, ensureWritable s = pure ()) :
    evalStatements evaluate heedsExit ss =
      perform evaluate (staysIn heedsExit) ss >>= fun _ ↦ pure () := by
  induction ss with
  | nil => rfl
  | cons s ss ih =>
    obtain ⟨hs, hss⟩ := List.forall_mem_cons.mp h
    simp only [evalStatements, perform, staysIn, hs, ih hss, bind_assoc, pure_bind]
    refine bind_congr fun _ ↦ bind_congr fun m ↦ ?_
    cases heedsExit && m.frame.exited <;> simp

theorem Frame.Lasts.and {I J : Frame → Prop} (hI : Frame.Lasts I) (hJ : Frame.Lasts J) :
    Frame.Lasts fun fr ↦ I fr ∧ J fr :=
  fun _ _ _ hgrows h ↦ ⟨hI _ _ _ hgrows h.1, hJ _ _ _ hgrows h.2⟩

end

/-! Statements -/

section

variable {c : Scope} {evaluate : Evaluator} (he : Follows c evaluate) {keys : List String}

theorem Faces.control {m : Machine} {g : Globals} {l : Table Value} (hm : Faces c m g l)
    (loops : List Bool) (exited : Bool) :
    Faces c { m with frame := { m.frame with loops := loops, exited := exited } } g l :=
  ⟨hm.locals, hm.data, hm.types, hm.outside, hm.globals, hm.stocked.1, hm.stocked.2, hm.stocked.3⟩

include he

end

end VbaTrace
