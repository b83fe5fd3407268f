import VbaTrace.Proofs.EntryPoints
import VbaTrace.Proofs.LoopRounds

/-!
What is pending when a statement deep inside of others is evaluated. A block is opened, which tells
the statements to evaluate, and closed behind the last of them (`evalNode_block`); a loop makes its
rounds. `Reaches limit e depth s args m ps m'` says that the evaluation of `s` comes to evaluate `e`
in `m'`, at any depth of blocks and loops, and `ps` tells for each of these what it has left to do,
the innermost first. If `e` returns, all of that is done (`Reaches.resumes`): the equation holds
whatever `e` has done to the machine, so that what an exit cuts short must be read off there.
-/

set_option autoImplicit false

namespace VbaTrace

/-- A statement that evaluates statements of its own at most once. -/
def Node.isBlock : Node → Bool
  | .conditional .. | .select .. | .withBlock .. => true
  | _ => false

namespace Semantics

/-! Blocks -/

/-- The statements of the first branch whose guard holds. -/
def takenBranch (evaluate : Evaluator) : List Branch → Eval (List Value)
  | [] => return []
  | .mk guard body :: bs => do
    let holds ← if guard.isNull then pure true else truth (← evaluate guard none)
    if holds then walk body else takenBranch evaluate bs

/-- The statements of the first case whose guard accepts the value. -/
def takenCase (evaluate : Evaluator) (v : Value) : List Value → Eval (List Value)
  | [] => return []
  | c :: cs => do
    let (guard, body) ← Eval.ofExcept (caseParts c)
    ensureWritable v
    if ← truth (← evaluate guard (some [v])) then walk body else takenCase evaluate v cs

def openConditional (evaluate : Evaluator) (directive : Bool) (branches : List Branch) :
    Eval (List Value) :=
  if directive then
    match branches with
    | [] => throw .outOfRange
    | .mk _ body :: _ => walk body
  else takenBranch evaluate branches

/-- What a block does before its statements, which it tells. -/
def openBlock (evaluate : Evaluator) (args : Arguments) : Node → Eval (List Value)
  | .conditional directive branches => openConditional evaluate directive branches
  | .select subject cases => do
    let v ← evaluate subject args
    takenCase evaluate v (← walk cases)
  | .withBlock subject body => do
    let name ← displayed subject
    modifyFrame fun fr ↦ { fr with withName := enterWith fr.withName name }
    walk body
  | _ => throw .unsupported

def closeBlock : Node → Eval Unit
  | .withBlock .. => modifyFrame fun fr ↦ { fr with withName := leaveWith fr.withName }
  | _ => return ()

/-- The arguments that a block passes on to its statements. -/
def passedOn (args : Arguments) : Node → Arguments
  | .select .. => args
  | _ => none

section

variable {evaluate : Evaluator}

theorem evalBranches_eq (branches : List Branch) :
    evalBranches evaluate branches =
      takenBranch evaluate branches >>= evalBlock evaluate none := by
  induction branches with
  | nil => rfl
  | cons b bs ih =>
    obtain ⟨guard, body⟩ := b
    simp only [evalBranches, takenBranch, ih]
    split_ifs
    · simp
    · simp only [bind_assoc]
      refine bind_congr fun v ↦ bind_congr fun holds ↦ ?_
      cases holds <;> simp

theorem evalCases_eq (args : Arguments) (v : Value) (cases : List Value) :
    evalCases evaluate args v cases =
      takenCase evaluate v cases >>= evalBlock evaluate args := by
  induction cases with
  | nil => rfl
  | cons c cs ih =>
    simp only [evalCases, takenCase, ih, bind_assoc]
    refine bind_congr fun parts ↦ bind_congr fun _ ↦ bind_congr fun w ↦ bind_congr fun holds ↦ ?_
    cases holds <;> simp

theorem evalConditional_eq (directive : Bool) (branches : List Branch) :
    evalConditional evaluate directive branches = (do
      evalBlock evaluate none (← openConditional evaluate directive branches)
      return .null) := by
  unfold evalConditional openConditional
  cases directive with
  | false => simp [evalBranches_eq]
  | true =>
    cases branches with
    | nil => rfl
    | cons b bs =>
      obtain ⟨guard, body⟩ := b
      simp

/-- A block is opened, evaluates the statements that it then tells, and is closed. -/
theorem evalNode_block (evaluate : Evaluator) (rounds : Nat) {n : Node} (hn : n.isBlock = true)
    (args : Arguments) :
    evalNode evaluate rounds n args = (do
      evalBlock evaluate (passedOn args n) (← openBlock evaluate args n)
      closeBlock n
      return .null) := by
  cases n with
  | conditional directive branches =>
    exact (evalConditional_eq directive branches).trans (by simp [openBlock, closeBlock, passedOn])
  | select subject cases =>
    change evalSelect evaluate args subject cases = _
    simp [evalSelect, openBlock, closeBlock, passedOn, evalCases_eq]
  | withBlock subject body =>
    change evalWith evaluate subject body = _
    simp [evalWith, openBlock, closeBlock, passedOn]
  | _ => exact nomatch hn

/-! Parts of blocks and of bodies -/

theorem evalBlock_append (args : Arguments) (front back : List Value) :
    evalBlock evaluate args (front ++ back) = (do
      evalBlock evaluate args front
      evalBlock evaluate args back) := by
  induction front with
  | nil => rfl
  | cons s ss ih => simp only [List.cons_append, evalBlock, ih, bind_assoc]

/-- What is left of a body behind one of its statements: nothing, if the loop was left. -/
def restOfBody (evaluate : Evaluator) (rest : List Value) : Eval Bool := do
  if ← loopRuns then evalBody evaluate rest else return true

theorem evalBody_append {front : List Value} {m m' : Machine}
    (h : evalBody evaluate front m = .ok false m') (back : List Value) :
    evalBody evaluate (front ++ back) m = evalBody evaluate back m' := by
  induction front generalizing m with
  | nil =>
    cases h
    rfl
  | cons s ss ih =>
    rw [List.cons_append, evalBody]
    rw [evalBody] at h
    obtain ⟨_, m₁, hwritable, h⟩ := Eval.bind_eq_ok h
    obtain ⟨v, m₂, hstatement, h⟩ := Eval.bind_eq_ok h
    obtain ⟨runs, m₃, hruns, h⟩ := Eval.bind_eq_ok h
    rw [Eval.bind_of_ok hwritable, Eval.bind_of_ok hstatement, Eval.bind_of_ok hruns]
    cases runs with
    | true => exact ih h
    | false => exact nomatch h

theorem evalBody_cons {s : Value} {m m' : Machine} (hs : ensureWritable s m = .ok () m')
    (rest : List Value) :
    evalBody evaluate (s :: rest) m = (do
      let _ ← evaluate s none
      restOfBody evaluate rest) m' := by
  rw [evalBody, Eval.bind_of_ok hs]
  rfl

end

/-! What is left to do -/

/-- What a block or a loop has left to do while one of its statements is evaluated: the statements
`rest` behind that one, evaluated to the given depth, and for a loop then the rounds that its plan
makes from the one with the number `place` on. -/
inductive Pending
  | block (n : Node) (depth : Nat) (args : Arguments) (rest : List Value)
  | loop (n : Node) (depth : Nat) (plan : LoopPlan) (rounds place : Nat) (rest : List Value)

namespace Pending

def isBlock : Pending → Bool
  | block .. => true
  | loop .. => false

/-- Goes on behind a statement that does `x`. -/
def resume (limit : Nat) (x : Eval Unit) : Pending → Eval Unit
  | block n depth args rest => do
    x
    evalBlock (evaluate limit depth) args rest
    closeBlock n
  | loop n depth plan rounds place rest => do
    shielded n do
      x
      plan.after (evaluate limit depth) rounds place (← restOfBody (evaluate limit depth) rest)
    popLoop

/-- Goes on behind a statement inside of all the given blocks and loops, from the innermost out. -/
def resumeAll (limit : Nat) (ps : List Pending) (x : Eval Unit) : Eval Unit :=
  ps.foldl (resume limit) x

theorem resumeAll_concat (limit : Nat) (ps : List Pending) (p : Pending) (x : Eval Unit) :
    resumeAll limit (ps ++ [p]) x = p.resume limit (resumeAll limit ps x) := by
  simp [resumeAll]

end Pending

/-- The evaluation of `s` comes to the evaluation of the node `e`. -/
inductive Reaches (limit : Nat) (e : Node) :
    Nat → Value → Arguments → Machine → List Pending → Machine → Prop
  | here {depth : Nat} {args : Arguments} {m : Machine} :
    Reaches limit e (depth + 1) (.node e) args m [] m
  | block {depth : Nat} {n : Node} {args : Arguments} {m m₁ m₂ m' : Machine} {front : List Value}
      {s : Value} {rest : List Value} {ps : List Pending} :
    n.isBlock = true → openBlock (evaluate limit depth) args n m = .ok (front ++ s :: rest) m₁ →
      evalBlock (evaluate limit depth) (passedOn args n) front m₁ = .ok () m₂ →
      Reaches limit e depth s (passedOn args n) m₂ ps m' →
      Reaches limit e (depth + 1) (.node n) args m
        (ps ++ [.block n depth (passedOn args n) rest]) m'
  | loop {depth k rounds : Nat} {n : Node} {args : Arguments} {m m₁ m₂ m₃ m₄ m' : Machine}
      {plan : LoopPlan} {front : List Value} {s : Value} {rest : List Value} {ps : List Pending} :
    n.repeats = true → enterLoop (evaluate limit depth) n m = .ok plan m₁ →
      plan.Begins (evaluate limit depth) 0 k m₁ (front ++ s :: rest) m₂ → limit = k + rounds + 1 →
      evalBody (evaluate limit depth) front m₂ = .ok false m₃ → ensureWritable s m₃ = .ok () m₄ →
      Reaches limit e depth s none m₄ ps m' →
      Reaches limit e (depth + 1) (.node n) args m
        (ps ++ [.loop n depth plan rounds (k + 1) rest]) m'

/-- Where the inner evaluation returns, the outer one goes on with all that is left to do. -/
theorem Reaches.resumes {limit : Nat} {e : Node} {depth : Nat} {s : Value} {args : Arguments}
    {m m' m'' : Machine} {ps : List Pending} (h : Reaches limit e depth s args m ps m')
    (he : ∀ depth args, evaluate limit (depth + 1) (.node e) args m' = .ok .null m'') :
    evaluate limit depth s args m = (do
      Pending.resumeAll limit ps (return ())
      return .null : Eval Value) m'' := by
  induction h with
  | here => exact he _ _
  | @block depth n args m m₁ m₂ m' front s rest ps hn hopen hfront _ ih =>
    change evalNode (evaluate limit depth) limit n args m = _
    rw [evalNode_block _ _ hn, Eval.bind_of_ok hopen, evalBlock_append]
    simp only [bind_assoc]
    rw [Eval.bind_of_ok hfront, Pending.resumeAll_concat]
    simp only [evalBlock, Pending.resume, bind_assoc]
    rw [Eval.bind_congr_at (ih he)]
    simp only [bind_assoc, pure_bind]
  | @loop depth k rounds n args m m₁ m₂ m₃ m₄ m' plan front s rest ps hn henter hbegins hlimit
      hfront hwritable _ ih =>
    change evalNode (evaluate limit depth) limit n args m = _
    have hrun : plan.run (evaluate limit depth) limit 0 m₁ = (do
        Pending.resumeAll limit ps (return ())
        plan.after (evaluate limit depth) rounds (k + 1)
          (← restOfBody (evaluate limit depth) rest) : Eval Unit) m'' := by
      have hbody : evalBody (evaluate limit depth) (front ++ s :: rest) m₂ = (do
          Pending.resumeAll limit ps (return ())
          restOfBody (evaluate limit depth) rest : Eval Bool) m'' := by
        rw [evalBody_append hfront, evalBody_cons hwritable, Eval.bind_congr_at (ih he)]
        simp only [bind_assoc, pure_bind]
      have hrounds := LoopPlan.run_of_begins hbegins rounds
      rw [← hlimit, Nat.zero_add, Eval.bind_congr_at hbody] at hrounds
      simpa only [bind_assoc] using hrounds
    rw [evalNode_loop _ _ hn, Eval.bind_of_ok henter, Pending.resumeAll_concat,
      Eval.bind_congr_at (shielded_congr_at n hrun)]
    simp only [Pending.resume, bind_assoc]

end Semantics

end VbaTrace
