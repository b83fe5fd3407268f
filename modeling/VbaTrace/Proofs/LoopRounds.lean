import VbaTrace.Proofs.Outcomes
import VbaTrace.Semantics.Evaluate

/-!
The rounds of loops of every kind. A loop is entered, makes its rounds, and is then popped; what the
kinds have of their own is how a round begins and what is done behind it, which is the `LoopPlan` of
a loop. So all four kinds of loops are one (`evalNode_loop`), and a round of a loop can be spoken of
without regard to its kind: `LoopPlan.Begins` says that a loop comes to a round, and where it stands
when it begins to evaluate the body there. From there on the loop is the rest of its rounds
(`LoopPlan.run_of_begins`).
-/

set_option autoImplicit false

namespace VbaTrace

namespace Eval

variable {α β : Type}

/-- What follows an evaluation depends only on its outcome. -/
theorem bind_congr_at {x y : Eval α} {m m' : Machine} (h : x m = y m') (f : α → Eval β) :
    (x >>= f) m = (y >>= f) m' := by
  change EStateM.bind x f m = EStateM.bind y f m'
  rw [EStateM.bind, EStateM.bind, h]

theorem handle_congr_at {x y : Eval α} {m m' : Machine} (h : x m = y m') (caught : Fault → Bool)
    (handler : Fault → Eval α) : handle x caught handler m = handle y caught handler m' := by
  change EStateM.tryCatch x _ m = EStateM.tryCatch y _ m'
  rw [EStateM.tryCatch, EStateM.tryCatch, h]

end Eval

/-- A loop of any kind. -/
def Node.repeats : Node → Bool
  | .forLoop .. | .forEach .. | .whileLoop .. | .doLoop .. => true
  | _ => false

/-- A loop over items, which hides the failures of its rounds. -/
def Node.isEach : Node → Bool
  | .forEach .. => true
  | _ => false

namespace Semantics

/-- What a loop does around its body: `next` tells the statements of the round with a given number,
or that there is no such round, and `goesOn` follows a round that was not left. -/
structure LoopPlan where
  next : Nat → Eval (Option (List Value))
  goesOn : Eval Bool

namespace LoopPlan

/-- The rounds of a loop, from the one with a given number on. -/
def run (evaluate : Evaluator) (p : LoopPlan) : Nat → Nat → Eval Unit
  | 0, _ => throw .tooDeep
  | rounds + 1, place => do
    match ← p.next place with
    | none => return ()
    | some body =>
      if ← evalBody evaluate body then return ()
      else if ← p.goesOn then p.run evaluate rounds (place + 1) else return ()

/-- What follows the body of a round, where `left` says that the loop was left in it. -/
def after (evaluate : Evaluator) (p : LoopPlan) (rounds place : Nat) (left : Bool) : Eval Unit := do
  if left then return ()
  else if ← p.goesOn then p.run evaluate rounds place else return ()

theorem run_succ (evaluate : Evaluator) (p : LoopPlan) (rounds place : Nat) :
    p.run evaluate (rounds + 1) place = (do
      match ← p.next place with
      | none => return ()
      | some body => p.after evaluate rounds (place + 1) (← evalBody evaluate body)) :=
  rfl

/-- The loop comes to a round: `Begins evaluate p place k m body m'` says that it goes from the
round `place`, before which it stands in `m`, through `k` whole rounds, and then begins to evaluate
`body` in `m'`. -/
inductive Begins (evaluate : Evaluator) (p : LoopPlan) :
    Nat → Nat → Machine → List Value → Machine → Prop
  | now {place : Nat} {m m' : Machine} {body : List Value} :
    p.next place m = .ok (some body) m' → Begins evaluate p place 0 m body m'
  | later {place k : Nat} {m m₁ m₂ m₃ m' : Machine} {whole body : List Value} :
    p.next place m = .ok (some whole) m₁ → evalBody evaluate whole m₁ = .ok false m₂ →
      p.goesOn m₂ = .ok true m₃ → Begins evaluate p (place + 1) k m₃ body m' →
      Begins evaluate p place (k + 1) m body m'

variable {evaluate : Evaluator} {p : LoopPlan}

theorem run_of_next {rounds place : Nat} {m m' : Machine} {body : List Value}
    (h : p.next place m = .ok (some body) m') :
    p.run evaluate (rounds + 1) place m =
      (evalBody evaluate body >>= p.after evaluate rounds (place + 1)) m' := by
  rw [run_succ, Eval.bind_of_ok h]

/-- The rounds of a loop are the whole ones up to a round that it comes to, and what follows. -/
theorem run_of_begins {place k : Nat} {m m' : Machine} {body : List Value}
    (h : p.Begins evaluate place k m body m') (rounds : Nat) :
    p.run evaluate (k + rounds + 1) place m =
      (evalBody evaluate body >>= p.after evaluate rounds (place + k + 1)) m' := by
  induction h with
  | now hnext =>
    rw [Nat.zero_add]
    exact run_of_next hnext
  | @later place k m m₁ m₂ m₃ m' whole body hnext hwhole hgoesOn _ ih =>
    rw [show k + 1 + rounds + 1 = k + rounds + 1 + 1 by omega, run_of_next hnext,
      Eval.bind_of_ok hwhole, show place + (k + 1) + 1 = place + 1 + k + 1 by omega, ← ih]
    exact Eval.bind_of_ok hgoesOn _

end LoopPlan

/-! The kinds of loops -/

/-- A round of a counting loop is made while the variable is at most the last number. -/
def countingPlan (name : Value) (stop : Int) (step body : Value) : LoopPlan where
  next _ := do
    let v ← fetch name
    if ← isAtMost v stop then
      ensureWritable v
      return some (← walk body)
    else return none
  goesOn := do
    store name (← advanced (← fetch name) step) none
    return true

/-- A round for each item of a container. -/
def itemPlan (item container body : Value) : LoopPlan where
  next place := do
    match ← nextItem container (← walk container) place with
    | none => return none
    | some v =>
      store item v none
      ensureWritable (← fetch item)
      return some (← walk body)
  goesOn := return true

/-- The guard is looked at before each round. -/
def whilePlan (evaluate : Evaluator) (kind guard body : Value) : LoopPlan where
  next _ := do
    if ← guardHolds evaluate kind guard then return some (← walk body) else return none
  goesOn := return true

/-- The guard is looked at behind each round. -/
def doPlan (evaluate : Evaluator) (kind guard : Value) (body : List Value) : LoopPlan where
  next _ := return some body
  goesOn := guardHolds evaluate kind guard

section

variable {evaluate : Evaluator}

theorem forRounds_eq_run (name : Value) (stop : Int) (step body : Value) (rounds place : Nat) :
    forRounds evaluate name stop step body rounds =
      (countingPlan name stop step body).run evaluate rounds place := by
  induction rounds generalizing place with
  | zero => rfl
  | succ rounds ih =>
    unfold forRounds
    rw [ih (place + 1), LoopPlan.run_succ]
    simp only [countingPlan, LoopPlan.after, bind_assoc]
    refine bind_congr fun v ↦ bind_congr fun runs ↦ ?_
    cases runs <;> simp [bind_assoc]

theorem whileRounds_eq_run (kind guard body : Value) (rounds place : Nat) :
    whileRounds evaluate kind guard body rounds =
      (whilePlan evaluate kind guard body).run evaluate rounds place := by
  induction rounds generalizing place with
  | zero => rfl
  | succ rounds ih =>
    unfold whileRounds
    rw [ih (place + 1), LoopPlan.run_succ]
    simp only [whilePlan, LoopPlan.after, bind_assoc]
    refine bind_congr fun holds ↦ ?_
    cases holds <;> simp

theorem doRounds_eq_run (kind guard : Value) (body : List Value) (rounds place : Nat) :
    doRounds evaluate kind guard body rounds =
      (doPlan evaluate kind guard body).run evaluate rounds place := by
  induction rounds generalizing place with
  | zero => rfl
  | succ rounds ih =>
    unfold doRounds
    rw [ih (place + 1), LoopPlan.run_succ]
    simp [doPlan, LoopPlan.after]

/-! A loop over items walks over its container once, and only a list in a cell is read anew for each
round. Every other container shows the same items at all times. -/

theorem walk_eq (v : Value) (m : Machine) :
    walk v m = ((m.heap.opened v).walk?).elim (.error .wrongType m) (.ok · m) := by
  unfold walk
  rw [Eval.bind_of_ok (rfl : opened v m = .ok (m.heap.opened v) m)]
  cases (m.heap.opened v).walk? <;> rfl

theorem nextItem_walk {container : Value} {items : List Value} {m : Machine}
    (h : walk container m = .ok items m) (place : Nat) :
    (do nextItem container (← walk container) place) = nextItem container items place := by
  funext m'
  cases container with
  | array cell => rfl
  | _ =>
    refine Eval.bind_of_ok (a := items) ?_ _
    rw [walk_eq] at h ⊢
    dsimp only [Heap.opened] at h ⊢
    generalize Value.walk? _ = found at h ⊢
    cases found with
    | none => exact nomatch h
    | some vs =>
      cases h
      rfl

theorem forEachRounds_eq_run {item container body : Value} {items : List Value} {m : Machine}
    (h : walk container m = .ok items m) (rounds place : Nat) :
    forEachRounds evaluate item container body items rounds place =
      (itemPlan item container body).run evaluate rounds place := by
  induction rounds generalizing place with
  | zero => rfl
  | succ rounds ih =>
    unfold forEachRounds
    rw [← nextItem_walk h, ih (place + 1), LoopPlan.run_succ]
    simp only [itemPlan, LoopPlan.after, bind_assoc]
    refine bind_congr fun _ ↦ bind_congr fun found ↦ ?_
    cases found <;> simp [bind_assoc]

end

/-! Loops as nodes -/

def enterCounting (evaluate : Evaluator) (name start stop step body : Value) : Eval LoopPlan := do
  let first ← evalOperand evaluate start
  ensureWritable first
  let last ← evalOperand evaluate stop
  if last.isInt then ensureWritable last
  let last := loopStop (← get).loopBound last
  let step ← loopStep evaluate step
  pushLoop
  store name first none
  return countingPlan name last step body

def enterItems (evaluate : Evaluator) (item container body : Value) : Eval LoopPlan := do
  pushLoop
  let value ← evalOperand evaluate container
  let value ←
    Eval.handle (fetch container) (fun f ↦ f.isMissing || f == .failedAssertion)
      fun _ ↦ return value
  return itemPlan item value body

/-- What a loop does before its first round. -/
def enterLoop (evaluate : Evaluator) : Node → Eval LoopPlan
  | .forLoop name start stop step body => enterCounting evaluate name start stop step body
  | .forEach item container body => enterItems evaluate item container body
  | .whileLoop kind guard body => do
    pushLoop
    return whilePlan evaluate kind guard body
  | .doLoop kind guard body => do
    pushLoop
    return doPlan evaluate kind guard (← walk body)
  | _ => throw .unsupported

/-- A failure in a round of a loop over items only ends the loop. -/
def shielded (n : Node) (x : Eval Unit) : Eval Unit :=
  match n with
  | .forEach .. => Eval.handle x Eval.anyFault fun _ ↦ return ()
  | _ => x

theorem shielded_of_not_each {n : Node} (hn : n.isEach = false) (x : Eval Unit) :
    shielded n x = x := by
  cases n with
  | forEach => exact nomatch hn
  | _ => rfl

theorem shielded_congr_at (n : Node) {x y : Eval Unit} {m m' : Machine} (h : x m = y m') :
    shielded n x m = shielded n y m' := by
  unfold shielded
  split
  · exact Eval.handle_congr_at h _ _
  · exact h

theorem shielded_walkContainer (evaluate : Evaluator) (rounds : Nat) (item container body : Value) :
    Eval.handle (walkContainer evaluate rounds item container body) Eval.anyFault
        (fun _ ↦ return ()) =
      Eval.handle ((itemPlan item container body).run evaluate rounds 0) Eval.anyFault
        fun _ ↦ return () := by
  funext m
  cases hitems : (m.heap.opened container).walk? with
  | some items =>
    have hwalk : walk container m = .ok items m := by
      rw [walk_eq, hitems]
      rfl
    refine Eval.handle_congr_at ?_ _ _
    rw [walkContainer, Eval.bind_of_ok hwalk, forEachRounds_eq_run hwalk]
  | none =>
    have hwalk : walk container m = .error .wrongType m := by
      rw [walk_eq, hitems]
      rfl
    have hcontainer : walkContainer evaluate rounds item container body m = .error .wrongType m :=
      Eval.bind_of_error hwalk _
    have hrun : ∃ f, (itemPlan item container body).run evaluate rounds 0 m = .error f m := by
      cases rounds with
      | zero => exact ⟨_, rfl⟩
      | succ rounds => exact ⟨_, Eval.bind_of_error (Eval.bind_of_error hwalk _) _⟩
    obtain ⟨f, hrun⟩ := hrun
    rw [Eval.handle_of_error hcontainer, Eval.handle_of_error hrun]
    rfl

/-- An operation on the flag of the innermost loop, where there is one. -/
def flagging {α : Type} (k : Bool → List Bool → α × List Bool) : Eval α := fun m ↦
  match m.frame.loops with
  | [] => .error .outOfRange m
  | runs :: outer =>
    .ok (k runs outer).1 { m with frame := { m.frame with loops := (k runs outer).2 } }

theorem popLoop_eq : popLoop = flagging fun _ outer ↦ ((), outer) := by
  funext m
  unfold popLoop flagging
  rw [Eval.bind_of_ok (rfl : (get : Eval Machine) m = .ok m m)]
  cases m.frame.loops <;> rfl

theorem evalExitLoop_eq : evalExitLoop = flagging fun _ outer ↦ (.null, false :: outer) := by
  funext m
  unfold evalExitLoop flagging
  rw [Eval.bind_of_ok (rfl : (get : Eval Machine) m = .ok m m)]
  cases m.frame.loops <;> rfl

/-- A loop is entered, makes its rounds, and is popped. -/
theorem evalNode_loop (evaluate : Evaluator) (rounds : Nat) {n : Node} (hn : n.repeats = true)
    (args : Arguments) :
    evalNode evaluate rounds n args = (do
      let plan ← enterLoop evaluate n
      shielded n (plan.run evaluate rounds 0)
      popLoop
      return .null) := by
  cases n with
  | forLoop name start stop step body =>
    change evalFor evaluate rounds name start stop step body = _
    simp only [evalFor, enterLoop, enterCounting, shielded, bind_assoc,
      forRounds_eq_run _ _ _ _ rounds 0]
    refine bind_congr fun first ↦ bind_congr fun _ ↦ bind_congr fun last ↦ ?_
    split_ifs <;> simp only [bind_assoc, pure_bind]
  | forEach item container body =>
    change evalForEach evaluate rounds item container body = _
    simp only [evalForEach, enterLoop, enterItems, shielded, bind_assoc, pure_bind,
      shielded_walkContainer]
  | whileLoop kind guard body =>
    change evalWhile evaluate rounds kind guard body = _
    simp only [evalWhile, enterLoop, shielded, bind_assoc, pure_bind,
      whileRounds_eq_run _ _ _ rounds 0]
  | doLoop kind guard body =>
    change evalDo evaluate rounds kind guard body = _
    simp only [evalDo, enterLoop, shielded, bind_assoc, pure_bind, doRounds_eq_run _ _ _ rounds 0]
  | _ => exact nomatch hn

/-- The loop, evaluated in `m`, comes to evaluate its body once more behind `k` whole rounds, and
begins with that in `m'`. -/
def ComesTo (evaluate : Evaluator) (n : Node) (k : Nat) (m m' : Machine) : Prop :=
  ∃ plan m₁ body, enterLoop evaluate n m = .ok plan m₁ ∧ plan.Begins evaluate 0 k m₁ body m'

/-- The loop evaluates its body at most `k` times, whether it then returns or fails. -/
def EndsWithin (evaluate : Evaluator) (n : Node) (k : Nat) (m : Machine) : Prop :=
  ∀ m', ¬ ComesTo evaluate n k m m'

end Semantics

end VbaTrace
