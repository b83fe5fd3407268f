import VbaTrace.Proofs.LoopExits

/-!
How far an exit from a procedure reaches. It raises a flag of the frame that only a function looks
at, behind its own statements. So a function skips those that follow, but neither what is left of
the blocks and loops around the exit nor the conditional behind its statements, and other procedures
skip nothing (`exit_ends_procedure`).
-/

set_option autoImplicit false

namespace VbaTrace

namespace Node

/-- A procedure with statements of its own. -/
def hasStatements : Node → Bool
  | .sub .. | .function .. => true
  | _ => false

/-- Only functions look at the flag that they were left. -/
def heedsExit : Node → Bool
  | .function .. => true
  | _ => false

/-- The conditional without an end behind the statements. -/
def trailing : Node → Value
  | .sub _ _ _ trailing | .function _ _ _ _ trailing => trailing
  | _ => .null

end Node

theorem Ensures.of_ok {strict : Prop} {role : Role} {α : Type} {x : Eval α} {Q : α → Prop}
    (hx : Ensures strict role x Q) {m m' : Machine} {a : α} (hm : m.Admitted strict)
    (heq : x m = .ok a m') : m'.Admitted strict ∧ Q a := by
  have hmeets := hx m hm
  rw [heq] at hmeets
  exact ⟨hmeets.1.admitted hm, hmeets.2⟩

namespace Semantics

/-! Activations -/

/-- A function starts without a value; then the arguments are bound. -/
def startProcedure (args : Arguments) : Node → Eval (List Value)
  | .sub _ params body _ => do
    bindArguments params args
    walk body
  | .function name params body _ _ => do
    store name .null none
    bindArguments params args
    walk body
  | _ => throw .unsupported

/-- What the procedure does behind its statements, and returns. -/
def finishProcedure : Node → Eval Value
  | .sub name _ _ _ => do
    Eval.handle (do let _ ← fetch name) Fault.isMissing fun _ ↦ store name .empty none
    return .null
  | .function name _ _ _ _ => do
    modifyFrame fun fr ↦ { fr with exited := false }
    returnValue name
  | _ => throw .unsupported

/-- The machine in which a procedure starts. -/
def activated (m : Machine) : Machine :=
  { m with frame := {}, globals := m.globals.install }

/-- The outcome of a procedure, with the frame of its caller. -/
def restoring (fr : Frame) : EStateM.Result Fault Machine Value → EStateM.Result Fault Machine Value
  | .ok v m => .ok v { m with frame := fr }
  | .error f m => .error f { m with frame := fr }

variable {limit depth : Nat} {n : Node} {args : Arguments} {m m' : Machine}

theorem inNewFrame_eq (x : Eval Value) (m : Machine) :
    inNewFrame x m = restoring m.frame (x (activated m)) := by
  unfold inNewFrame activated
  cases x { m with frame := {}, globals := m.globals.install } <;> rfl

theorem evalNode_procedure (evaluate : Evaluator) (rounds : Nat) (hn : n.hasStatements = true)
    (args : Arguments) (m : Machine) :
    evalNode evaluate rounds n args m = restoring m.frame ((do
      evalStatements evaluate n.heedsExit (← startProcedure args n)
      evalTrailing evaluate n.trailing
      finishProcedure n : Eval Value) (activated m)) := by
  cases n with
  | sub name params body trailing =>
    change evalSub evaluate name params body trailing args m = _
    rw [evalSub, inNewFrame_eq]
    simp only [startProcedure, finishProcedure, Node.heedsExit, Node.trailing, bind_assoc]
  | function name params body returns trailing =>
    change evalFunction evaluate name params body trailing args m = _
    rw [evalFunction, inNewFrame_eq]
    simp only [startProcedure, finishProcedure, Node.heedsExit, Node.trailing, bind_assoc]
  | _ => exact nomatch hn

theorem ensures_startProcedure (hfits : n.fits .statement = true)
    (hargs : AdmitsArguments True args) :
    Ensures True .statement (startProcedure args n)
      fun ss ↦ ∀ s ∈ ss, Admits True .statement s := by
  cases n with
  | sub name params body trailing =>
    simp only [Node.fits, Bool.and_eq_true] at hfits
    exact (ensures_bindArguments params hargs).bind fun _ _ ↦ ensures_walk fun _ ↦ hfits.1
  | function name params body returns trailing =>
    simp only [Node.fits, Bool.and_eq_true] at hfits
    refine (Ensures.store name admits_null none fun _ ↦ rfl).bind fun _ _ ↦ ?_
    exact (ensures_bindArguments params hargs).bind fun _ _ ↦ ensures_walk fun _ ↦ hfits.1
  | _ => exact .throw _

/-! Statements of procedures -/

section

variable {evaluate : Evaluator} {heedsExit : Bool}

theorem evalStatements_append {front : List Value} {m m₁ : Machine}
    (h : evalStatements evaluate heedsExit front m = .ok () m₁)
    (hruns : heedsExit = true → m₁.frame.exited = false) (back : List Value) :
    evalStatements evaluate heedsExit (front ++ back) m =
      evalStatements evaluate heedsExit back m₁ := by
  induction front generalizing m with
  | nil =>
    cases h
    rfl
  | cons s ss ih =>
    rw [evalStatements] at h
    obtain ⟨_, m₂, hwritable, h⟩ := Eval.bind_eq_ok h
    obtain ⟨v, m₃, hstatement, h⟩ := Eval.bind_eq_ok h
    rw [Eval.bind_of_ok (rfl : (get : Eval Machine) m₃ = .ok m₃ m₃)] at h
    rw [List.cons_append, evalStatements, Eval.bind_of_ok hwritable, Eval.bind_of_ok hstatement,
      Eval.bind_of_ok (rfl : (get : Eval Machine) m₃ = .ok m₃ m₃)]
    cases hexited : heedsExit && m₃.frame.exited with
    | false =>
      rw [hexited] at h
      exact ih h
    | true =>
      rw [hexited] at h
      cases h
      rw [Bool.and_eq_true] at hexited
      rw [hruns hexited.1] at hexited
      exact Bool.noConfusion hexited.2

/-- What is left of the statements of a procedure behind one of them: nothing, if it was left and
heeds this. -/
def restOfStatements (evaluate : Evaluator) (heedsExit : Bool) (rest : List Value) : Eval Unit := do
  if heedsExit && (← get).frame.exited then return ()
  else evalStatements evaluate heedsExit rest

theorem evalStatements_cons {s : Value} {m m₁ : Machine} (hs : ensureWritable s m = .ok () m₁)
    (rest : List Value) :
    evalStatements evaluate heedsExit (s :: rest) m = (do
      let _ ← evaluate s none
      restOfStatements evaluate heedsExit rest) m₁ := by
  rw [evalStatements, Eval.bind_of_ok hs]
  rfl

end

/-! Exits -/

/-- The machine in which the procedure is left. -/
def procedureLeft (m : Machine) : Machine :=
  { m with frame := { m.frame with exited := true } }

/-- The activation of the procedure comes to one of its exits: it evaluates it in `m'`, inside of
the blocks and loops that `ps` tells, and `rest` are the statements of the procedure behind the one
with the exit. -/
inductive ComesToExit (limit depth : Nat) (n : Node) (args : Arguments) (m : Machine) :
    List Pending → List Value → Machine → Prop
  | intro {front : List Value} {s : Value} {rest : List Value} {m₁ m₂ m₃ m' : Machine}
      {ps : List Pending} :
    startProcedure args n (activated m) = .ok (front ++ s :: rest) m₁ →
      evalStatements (evaluate limit depth) n.heedsExit front m₁ = .ok () m₂ →
      (n.heedsExit = true → m₂.frame.exited = false) → ensureWritable s m₂ = .ok () m₃ →
      Reaches limit .exitProcedure depth s none m₃ ps m' →
      ComesToExit limit depth n args m ps rest m'

theorem activated_admitted (hm : m.Admitted True) : (activated m).Admitted True :=
  ⟨fun _ _ hv ↦ (nomatch hv), hm.globals.install, hm.heap, hm.properties, hm.itemProperties⟩

/-- A procedure that was left stays left while the blocks and loops around the exit go on. -/
theorem Pending.exited_resumeAll {ps : List Pending} (hps : ∀ p ∈ ps, p.Obeys (falling False))
    {m m₁ : Machine} (hm : m.Admitted True) (hexited : m.frame.exited = true)
    (hok : resumeAll limit ps (return ()) m = .ok () m₁) : m₁.frame.exited = true := by
  have hkeeps : (falling False).Keeps (resumeAll limit ps (return ())) fun _ ↦ True :=
    keeps_resumeAll hps False.elim (.pure True.intro)
  obtain ⟨-, ⟨hstays, -⟩, -⟩ := (hkeeps _).ok hm rfl hok
  exact hstays hexited

/-- The exit itself is reached in an admitted machine, with statements around it that let flags only
fall. -/
theorem ComesToExit.obeyed {ps : List Pending} {rest : List Value}
    (hfits : n.fits .statement = true) (hargs : AdmitsArguments True args) (hm : m.Admitted True)
    (h : ComesToExit limit depth n args m ps rest m') :
    m'.Admitted True ∧ ∀ p ∈ ps, p.Obeys (falling False) := by
  cases h with
  | @intro front s rest m₁ m₂ m₃ m' ps hstart hfront _ hwritable hreaches =>
    obtain ⟨hm₁, hbody⟩ := (ensures_startProcedure hfits hargs).of_ok (activated_admitted hm) hstart
    obtain ⟨hfront', hs, -⟩ :=
      List.forall_mem_append.mp hbody |>.imp_right List.forall_mem_cons.mp
    obtain ⟨hm₂, -⟩ := (ensures_evalStatements (evaluates True limit depth) n.heedsExit
      hfront').of_ok hm₁ hfront
    have hwrites : Ensures True .operand (ensureWritable s) fun _ ↦ True := .ensureWritable s
    obtain ⟨hm', -, -, hps⟩ := hreaches.obeyed (falling_obeys (hs True.intro) False.elim)
      admitsArguments_none (hwrites.of_ok hm₂ hwritable).1
    exact ⟨hm', hps⟩

/-- A function skips the statements behind one with an exit, and other procedures evaluate them. -/
def afterExit (evaluate : Evaluator) (n : Node) (rest : List Value) : Eval Unit :=
  if n.heedsExit then return () else evalStatements evaluate false rest

/-- What is left of the statements behind an exit, once the blocks and loops around it have gone
on. -/
theorem restOfStatements_of_left {ps : List Pending} (hps : ∀ p ∈ ps, p.Obeys (falling False))
    (hm : m.Admitted True) (hexited : m.frame.exited = true) (n : Node) (rest : List Value) :
    (do
      Pending.resumeAll limit ps (return ())
      restOfStatements (evaluate limit depth) n.heedsExit rest) m =
    (do
      Pending.resumeAll limit ps (return ())
      afterExit (evaluate limit depth) n rest) m := by
  cases hresume : Pending.resumeAll limit ps (return ()) m with
  | error f m₁ => rw [Eval.bind_of_error hresume, Eval.bind_of_error hresume]
  | ok a m₁ =>
    rw [Eval.bind_of_ok hresume, Eval.bind_of_ok hresume, restOfStatements,
      Eval.bind_of_ok (rfl : (get : Eval Machine) m₁ = .ok m₁ m₁),
      Pending.exited_resumeAll hps hm hexited hresume, afterExit]
    cases n.heedsExit <;> rfl

/-- The statements of the procedure up to the exit, and what follows it. -/
theorem ComesToExit.evalStatements_eq {ps : List Pending} {rest : List Value}
    (h : ComesToExit limit depth n args m ps rest m') (hm' : m'.Admitted True)
    (hps : ∀ p ∈ ps, p.Obeys (falling False)) :
    ∃ body m₁, startProcedure args n (activated m) = .ok body m₁ ∧
      evalStatements (evaluate limit depth) n.heedsExit body m₁ = (do
        Pending.resumeAll limit ps (return ())
        afterExit (evaluate limit depth) n rest : Eval Unit) (procedureLeft m') := by
  cases h with
  | @intro front s rest m₁ m₂ m₃ m' ps hstart hfront hruns hwritable hreaches =>
    have hexit : ∀ depth args, evaluate limit (depth + 1) (.node .exitProcedure) args m' =
        .ok .null (procedureLeft m') := fun _ _ ↦ rfl
    refine ⟨_, m₁, hstart, ?_⟩
    rw [evalStatements_append hfront hruns, evalStatements_cons hwritable,
      Eval.bind_congr_at (hreaches.resumes hexit), bind_assoc]
    simp only [pure_bind]
    exact restOfStatements_of_left (m := procedureLeft m') hps
      ⟨hm'.locals, hm'.globals, hm'.heap, hm'.properties, hm'.itemProperties⟩ rfl n rest

/-- Once an exit has been evaluated, what is left of the blocks and loops around it is evaluated.
Then a function skips its further statements, and any other procedure evaluates them. The
conditional behind the statements is evaluated in any case. So a function ends at once if its exit
stands in no block and it has no such conditional. -/
theorem exit_ends_procedure (hn : n.hasStatements = true) (hfits : n.fits .statement = true)
    (hargs : AdmitsArguments True args) (hm : m.Admitted True) {ps : List Pending}
    {rest : List Value} (h : ComesToExit limit depth n args m ps rest m') :
    evaluate limit (depth + 1) (.node n) args m = restoring m.frame ((do
        Pending.resumeAll limit ps (return ())
        afterExit (evaluate limit depth) n rest
        evalTrailing (evaluate limit depth) n.trailing
        finishProcedure n : Eval Value) (procedureLeft m')) ∧
      (n.heedsExit = true → ps = [] → n.trailing.isNull = true →
        evaluate limit (depth + 1) (.node n) args m =
          restoring m.frame (finishProcedure n (procedureLeft m'))) := by
  obtain ⟨hm', hps⟩ := h.obeyed hfits hargs hm
  obtain ⟨body, m₁, hstart, hstatements⟩ := h.evalStatements_eq hm' hps
  have hequation := evalNode_procedure (evaluate limit depth) limit hn args m
  rw [Eval.bind_of_ok hstart, Eval.bind_congr_at hstatements, bind_assoc] at hequation
  refine ⟨hequation, fun hheeds hnil hnull ↦ hequation.trans ?_⟩
  rw [hnil, afterExit, if_pos hheeds, evalTrailing, if_pos hnull]
  rfl

/-- The body of a procedure that is left before a message. -/
def leavingBody : Value :=
  .tokens (.ofList [.node .exitProcedure, afterwards])

def leavingFunction : Node :=
  .function (.text "f") (.text "") leavingBody (.text "") .null

theorem exit_ends_procedure_function : leavingFunction.fits .statement = true ∧
    ∃ m', ComesToExit 3 1 leavingFunction none {} [] [afterwards] m' ∧
      evaluate 3 2 (.node leavingFunction) none {} =
        restoring {} (finishProcedure leavingFunction (procedureLeft m')) := by
  have hcomes : ComesToExit 3 1 leavingFunction none {} [] [afterwards] _ :=
    @ComesToExit.intro 3 1 leavingFunction none {} [] (.node .exitProcedure) _ _ _ _ _ [] rfl rfl
      (fun _ ↦ rfl) rfl .here
  obtain ⟨-, hends⟩ :=
    exit_ends_procedure rfl (by decide) admitsArguments_none empty_admitted hcomes
  exact ⟨by decide, _, hcomes, hends rfl rfl rfl⟩

def leavingSub : Node :=
  .sub (.text "p") (.text "") leavingBody .null

/-- A procedure that is no function shows the message behind its exit. -/
theorem statements_behind_procedure_exit_evaluated : ¬ ∀ (limit depth : Nat) (n : Node)
    (args : Arguments) (m m' : Machine) (ps : List Pending) (rest : List Value),
    n.hasStatements = true → n.fits .statement = true → AdmitsArguments True args →
    m.Admitted True → ComesToExit limit depth n args m ps rest m' →
    evaluate limit (depth + 1) (.node n) args m =
      restoring m.frame (finishProcedure n (procedureLeft m')) := by
  intro h
  have hcomes : ComesToExit 3 1 leavingSub none {} [] [afterwards] (activated {}) :=
    @ComesToExit.intro 3 1 leavingSub none {} [] (.node .exitProcedure) _ _ _ _ _ [] rfl rfl nofun
      rfl .here
  have hends := h 3 1 leavingSub none {} _ _ _ rfl (by decide) admitsArguments_none empty_admitted
    hcomes
  have hfinal := Eval.final_congr (y := fun m ↦ restoring {} (finishProcedure leavingSub m)) hends
  have hsize := congrArg (fun m ↦ m.actions.size) hfinal
  revert hsize
  decide +kernel

end Semantics

end VbaTrace
