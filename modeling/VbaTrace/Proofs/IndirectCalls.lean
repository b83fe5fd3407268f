import VbaTrace.Proofs.OwnCalls
import VbaTrace.Proofs.TextOperands

/-!
Calls through `Run`. The routine is given the name of a procedure as a text, with the arguments of
the procedure behind it. A text without a dot is an argument that stands for itself, so the other
arguments are evaluated as those of the direct call are (`callArguments_named`), and both calls then
run the procedure with them; when it ends because something is missing, both give null.

That they do the same (`indirect_call_agrees`) needs that the arguments leave the name as it is.
They do, unless it is the name of a constant: every procedure that is run sets the constants anew,
and the calls treat the text of a constant differently (`indirect_call_refused`).
-/

set_option autoImplicit false

namespace VbaTrace

/-- Where the machine is outside of `With` blocks, the name stands for a procedure, and no variable
hides the routine `Run`. -/
structure Machine.Dispatches (m : Machine) (name : String) (p : Value) : Prop where
  outside : m.frame.withName = ""
  unhiddenLocally : m.frame.locals.find? "run" = none
  unhidden : m.globals.find? "run" = none
  stands : m.lookup name = some p
  isProcedure : p.isSubOrFunction = true

namespace Machine.Dispatches

variable {m : Machine} {name : String} {p : Value}

theorem lookup_run (h : m.Dispatches name p) : m.lookup "Run" = some (.routine .run) := by
  have hlower : Text.lower "Run" = "run" := by decide
  rw [lookup_eq, hlower, h.unhiddenLocally, h.unhidden]
  rfl

theorem resolve?_run (h : m.Dispatches name p) : m.resolve? "Run" = some (.routine .run) := by
  rw [Machine.resolve?, h.outside, String.empty_append, h.lookup_run, Option.some_or]

theorem resolve?_name (h : m.Dispatches name p) : m.resolve? name = some p := by
  rw [Machine.resolve?, h.outside, String.empty_append, h.stands, Option.some_or]

theorem isEvaluated (h : m.Dispatches name p) : p.isEvaluated = true := by
  cases p with
  | node => rfl
  | _ => exact nomatch h.isProcedure

theorem ne_run (h : m.Dispatches name p) : name ≠ "Run" := by
  rintro rfl
  have hsame := h.stands.symm.trans h.lookup_run
  have hprocedure := h.isProcedure
  rw [Option.some.inj hsame] at hprocedure
  exact nomatch hprocedure

end Machine.Dispatches

namespace Semantics

variable {limit depth : Nat} {m m₁ : Machine} {name : String} {p params indirect : Value}
  {vs args : List Value}

/-! Arguments -/

section

variable {evaluate : Evaluator}

theorem ensureWritable_text_cons (name : String) (args : List Value) :
    ensureWritable (.list (.text name :: args)) = ensureWritable (.list args) := by
  funext m
  have hheight : (Value.list (.text name :: args)).height = (Value.list args).height := by
    simp [Value.height, heightOfAll]
  have hresolve : (m.heap.resolve (.list (.text name :: args))).isWritable =
      (m.heap.resolve (.list args)).isWritable := by
    unfold Heap.resolve
    dsimp only
    rw [hheight]
    rfl
  change (if (m.heap.resolve _).isWritable then _ else _ : Eval Unit) m = _
  rw [hresolve]
  rfl

theorem walk_of_walk? (h : params.walk? = some vs) : walk params = pure vs := by
  funext m
  rw [walk_eq]
  cases params with
  | array => exact nomatch h
  | _ =>
    dsimp only [Heap.opened]
    rw [h]
    rfl

theorem evalOperand_undotted (hname : '.' ∉ name.toList) :
    evalOperand evaluate (.text name) = pure (.text name) :=
  funext ((evalText_eq_self_iff evaluate name).mpr hname)

/-- The name in front of the arguments makes no difference to them. -/
theorem callArguments_named (hname : '.' ∉ name.toList) (hparams : params.walk? = some vs)
    (hindirect : indirect.walk? = some (.text name :: vs)) :
    callArguments evaluate indirect =
      callArguments evaluate params >>= fun args ↦ pure (.text name :: args) := by
  unfold callArguments evalArguments
  rw [walk_of_walk? hparams, walk_of_walk? hindirect, pure_bind, pure_bind, evalOperands,
    evalOperand_undotted hname, pure_bind]
  simp only [bind_assoc, pure_bind, ensureWritable_text_cons]

theorem evalCall_of_not_isNotable (hname : isNotable name = false) :
    evalCall evaluate name params = callArguments evaluate params >>= fun args ↦
      Eval.handle (callNamed evaluate name args) Fault.isMissing
        fun _ ↦ callFallback evaluate name args := by
  rw [evalCall_eq]
  unfold callPrelude
  simp [hname]

end

/-! The run of the procedure -/

/-- The run of a procedure by a call, which gives null where something is missing. -/
def runOrNull (evaluate : Evaluator) (p : Value) (args : List Value) : Eval Value :=
  Eval.handle (evaluate p (some args)) Fault.isMissing fun _ ↦ return .null

/-- No arguments and an empty list of arguments are the same to a procedure. -/
theorem evaluate_none (hp : p.isSubOrFunction = true) (limit depth : Nat) :
    evaluate limit depth p none = evaluate limit depth p (some []) := by
  cases depth with
  | zero => rfl
  | succ depth =>
    cases p with
    | node n => cases n <;> first | rfl | exact nomatch hp
    | _ => exact nomatch hp

/-- A fault that was caught before is not caught again. -/
theorem handle_handle {α : Type} (x : Eval α) (caught : Fault → Bool) (a : α)
    (handler : Fault → Eval α) :
    Eval.handle (Eval.handle x caught fun _ ↦ pure a) caught handler =
      Eval.handle x caught fun _ ↦ pure a := by
  funext m
  cases hx : x m with
  | ok b m₁ => rw [Eval.handle_of_ok (Eval.handle_of_ok hx _ _), Eval.handle_of_ok hx]
  | error f m₁ =>
    cases hf : caught f with
    | true =>
      have hcaught : Eval.handle x caught (fun _ ↦ pure a) m = .ok a m₁ := by
        rw [Eval.handle_of_error hx, hf]
        rfl
      rw [Eval.handle_of_ok hcaught, hcaught]
    | false =>
      have hpassed : Eval.handle x caught (fun _ ↦ pure a) m = .error f m₁ := by
        rw [Eval.handle_of_error hx, hf]
        rfl
      rw [Eval.handle_of_error hpassed, hf, hpassed]
      rfl

/-- The routine runs what a name stands for, and gives null where something is missing. -/
theorem library_run_eq (h : m.Dispatches name p) (args : List Value) :
    Library.run (evaluate limit depth) (.text name :: args) m =
      runOrNull (evaluate limit depth) p args m := by
  have hrun (rest : Arguments) : (do evaluate limit depth (← fetch (.text name)) rest) m =
      evaluate limit depth p rest m := Eval.bind_of_ok (fetch_of_some h.resolve?_name) _
  cases args with
  | nil =>
    rw [runOrNull, ← evaluate_none h.isProcedure]
    exact Eval.handle_congr_at (hrun none) _ _
  | cons arg args => exact Eval.handle_congr_at (hrun (some (arg :: args))) _ _

theorem evaluate_indirect (hname : '.' ∉ name.toList) (hparams : params.walk? = some vs)
    (hindirect : indirect.walk? = some (.text name :: vs))
    (hargs : callArguments (evaluate limit (depth + 1)) params m = .ok args m₁)
    (h : m₁.Dispatches name p) (own : Arguments) :
    evaluate limit (depth + 2) (.node (.call "Run" indirect)) own m =
      runOrNull (evaluate limit depth) p args m₁ := by
  have hnamed : callArguments (evaluate limit (depth + 1)) indirect m =
      .ok (.text name :: args) m₁ := by
    rw [callArguments_named hname hparams hindirect, Eval.bind_of_ok hargs]
    rfl
  have hroutine : callNamed (evaluate limit (depth + 1)) "Run" (.text name :: args) m₁ =
      runOrNull (evaluate limit depth) p args m₁ :=
    (callNamed_of_isEvaluated h.resolve?_run rfl _ _).trans (library_run_eq h args)
  change evalCall (evaluate limit (depth + 1)) "Run" indirect m = _
  rw [evalCall_of_not_isNotable (by decide), Eval.bind_of_ok hnamed,
    Eval.handle_congr_at hroutine, runOrNull, handle_handle]

theorem evaluate_direct (hname : '.' ∉ name.toList) (hnotable : isNotable name = false)
    (hargs : callArguments (evaluate limit (depth + 1)) params m = .ok args m₁)
    (h : m₁.Dispatches name p) (own : Arguments) :
    evaluate limit (depth + 2) (.node (.call name params)) own m =
      runOrNull (evaluate limit (depth + 1)) p args m₁ := by
  have hother : runNames.contains name = false := by
    rw [← Bool.not_eq_true, List.contains_iff_mem]
    intro hmem
    rcases List.mem_cons.mp hmem with rfl | hmem
    · exact hname (by decide)
    · exact h.ne_run (List.mem_singleton.mp hmem)
  have hfallback : callFallback (evaluate limit (depth + 1)) name args = pure Value.null := by
    rw [callFallback, hother]
    rfl
  change evalCall (evaluate limit (depth + 1)) name params m = _
  rw [evalCall_of_not_isNotable hnotable, Eval.bind_of_ok hargs, hfallback]
  exact Eval.handle_congr_at (callNamed_of_isEvaluated h.resolve?_name h.isEvaluated _ args) _ _

/-- A call whose arguments fail is that failure. -/
theorem evaluate_of_failed_arguments (hnotable : isNotable name = false) {f : Fault}
    (hargs : callArguments (evaluate limit depth) params m = .error f m₁) (own : Arguments) :
    evaluate limit (depth + 1) (.node (.call name params)) own m = .error f m₁ := by
  change evalCall (evaluate limit depth) name params m = _
  rw [evalCall_of_not_isNotable hnotable, Eval.bind_of_error hargs]

/-! What the arguments leave -/

/-- The arguments leave a procedure under its name, unless it is that of a constant. -/
theorem dispatches_callArguments (hm : m.Admitted True) (h : m.Dispatches name p)
    (hvs : ∀ v ∈ vs, v.fits .operand = true) (hparams : params.walk? = some vs)
    (hargs : callArguments (evaluate limit depth) params m = .ok args m₁)
    (hkept : isConstantName (Text.lower name) = true → m₁.lookup name = some p) :
    m₁.Dispatches name p := by
  have hensures : Ensures True .operand (callArguments (evaluate limit depth) params)
      fun _ ↦ True := by
    unfold callArguments evalArguments
    rw [walk_of_walk? hparams, pure_bind]
    refine (ensures_evalOperands (evaluates True limit depth) fun v hv _ ↦ hvs v hv).bind ?_
    exact fun args _ ↦ (Ensures.ensureWritable _).bind fun _ _ ↦ .pure True.intro
  have hchanges : Changes True .operand m m₁ :=
    Eval.final_of_ok hargs ▸ hensures.changes_final hm
  have hframe := hchanges.keepsFrame
  have hglobals := hchanges.globals_stable
  refine ⟨hframe.withName.trans h.outside, ?_, ?_, ?_, h.isProcedure⟩
  · rw [hframe.locals, h.unhiddenLocally]
  · exact Globals.find?_eq_none hglobals (by decide) h.unhidden
  · cases hconstant : isConstantName (Text.lower name) with
    | true => exact hkept hconstant
    | false => exact lookup_procedure hframe.locals hglobals h.isProcedure hconstant h.stands

/-- Outside of `With` blocks and with no variable called `Run`, a call of `Run` with the name of a
procedure and arguments, and the call of the procedure with these arguments, both fail like the
arguments, or else run the procedure once and give null where something is missing, the former one
level deeper. So they end alike, in the
same machine, wherever that level makes no difference. For the name of a constant this supposes that
it still stands for the procedure behind the arguments. -/
theorem indirect_call_agrees (hm : m.Admitted True) (h : m.Dispatches name p)
    (hname : '.' ∉ name.toList) (hnotable : isNotable name = false)
    (hvs : ∀ v ∈ vs, v.fits .operand = true) (hparams : params.walk? = some vs)
    (hindirect : indirect.walk? = some (.text name :: vs))
    (hkept : isConstantName (Text.lower name) = true → ∀ args m₁,
      callArguments (evaluate limit (depth + 1)) params m = .ok args m₁ → m₁.lookup name = some p)
    (own : Arguments) :
    (∀ f m₁, callArguments (evaluate limit (depth + 1)) params m = .error f m₁ →
      evaluate limit (depth + 2) (.node (.call "Run" indirect)) own m = .error f m₁ ∧
        evaluate limit (depth + 2) (.node (.call name params)) own m = .error f m₁) ∧
    (∀ args m₁, callArguments (evaluate limit (depth + 1)) params m = .ok args m₁ →
      evaluate limit (depth + 2) (.node (.call "Run" indirect)) own m =
          runOrNull (evaluate limit depth) p args m₁ ∧
        evaluate limit (depth + 2) (.node (.call name params)) own m =
          runOrNull (evaluate limit (depth + 1)) p args m₁) ∧
    ((∀ args m₁, callArguments (evaluate limit (depth + 1)) params m = .ok args m₁ →
        evaluate limit (depth + 1) p (some args) m₁ = evaluate limit depth p (some args) m₁) →
      evaluate limit (depth + 2) (.node (.call "Run" indirect)) own m =
        evaluate limit (depth + 2) (.node (.call name params)) own m) := by
  have hstays (args : List Value) (m₁ : Machine)
      (hargs : callArguments (evaluate limit (depth + 1)) params m = .ok args m₁) :
      m₁.Dispatches name p :=
    dispatches_callArguments hm h hvs hparams hargs fun hconstant ↦ hkept hconstant args m₁ hargs
  have hfails (f : Fault) (m₁ : Machine)
      (hargs : callArguments (evaluate limit (depth + 1)) params m = .error f m₁) :
      evaluate limit (depth + 2) (.node (.call "Run" indirect)) own m = .error f m₁ ∧
        evaluate limit (depth + 2) (.node (.call name params)) own m = .error f m₁ := by
    have hnamed : callArguments (evaluate limit (depth + 1)) indirect m = .error f m₁ := by
      rw [callArguments_named hname hparams hindirect, Eval.bind_of_error hargs]
    exact ⟨evaluate_of_failed_arguments (by decide) hnamed own,
      evaluate_of_failed_arguments hnotable hargs own⟩
  have hruns (args : List Value) (m₁ : Machine)
      (hargs : callArguments (evaluate limit (depth + 1)) params m = .ok args m₁) :
      evaluate limit (depth + 2) (.node (.call "Run" indirect)) own m =
          runOrNull (evaluate limit depth) p args m₁ ∧
        evaluate limit (depth + 2) (.node (.call name params)) own m =
          runOrNull (evaluate limit (depth + 1)) p args m₁ :=
    ⟨evaluate_indirect hname hparams hindirect hargs (hstays args m₁ hargs) own,
      evaluate_direct hname hnotable hargs (hstays args m₁ hargs) own⟩
  refine ⟨hfails, hruns, fun hdepth ↦ ?_⟩
  cases hargs : callArguments (evaluate limit (depth + 1)) params m with
  | error f m₁ => rw [(hfails f m₁ hargs).1, (hfails f m₁ hargs).2]
  | ok args m₁ =>
    rw [(hruns args m₁ hargs).1, (hruns args m₁ hargs).2]
    exact (Eval.handle_congr_at (hdepth args m₁ hargs) _ _).symm

/-- A function with a parameter that shows a message. -/
def messageFunction : Node :=
  .function (.text "f") (.list [.node (.parameter (.text "a") .empty)])
    (.list [afterwards]) .empty .null

def withMessageFunction : Machine :=
  { globals := { others := ⟨[("f", .node messageFunction)]⟩ } }

theorem withMessageFunction_admitted : withMessageFunction.Admitted True :=
  .of_tables (.of_entries (by decide)) (.of_entries (by decide)) (.of_entries (by decide))
    Heap.stocked_empty rfl rfl

theorem dispatches_messageFunction : withMessageFunction.Dispatches "f" (.node messageFunction) :=
  ⟨rfl, rfl, rfl, rfl, rfl⟩

theorem callArguments_messageFunction :
    callArguments (evaluate 9 5) (.list [.text "x"]) withMessageFunction =
      .ok [.text "x"] withMessageFunction :=
  rfl

theorem evaluate_messageFunction (limit depth : Nat) :
    evaluate limit (depth + 2) (.node messageFunction) (some [.text "x"]) withMessageFunction =
      .ok .empty
        { withMessageFunction with
          globals := withMessageFunction.globals.install
          actions := #[⟨.text "Display Message", .text "'after'", .text "MsgBox"⟩] } :=
  rfl

theorem indirect_call_agrees_message :
    withMessageFunction.Admitted True ∧ withMessageFunction.Dispatches "f" (.node messageFunction) ∧
      '.' ∉ "f".toList ∧ isNotable "f" = false ∧
      evaluate 9 6 (.node (.call "Run" (.list [.text "f", .text "x"]))) none withMessageFunction =
        evaluate 9 6 (.node (.call "f" (.list [.text "x"]))) none withMessageFunction := by
  have hadmitted := withMessageFunction_admitted
  have hdispatches := dispatches_messageFunction
  have hoperands : ∀ v ∈ [Value.text "x"], v.fits .operand = true := by decide
  refine ⟨hadmitted, hdispatches, by decide, by decide, ?_⟩
  refine (indirect_call_agrees hadmitted hdispatches (by decide) (by decide) hoperands rfl rfl
    (fun h ↦ nomatch h) none).2.2 fun args m₁ hargs ↦ ?_
  rw [callArguments_messageFunction] at hargs
  cases hargs
  rw [evaluate_messageFunction, evaluate_messageFunction]

/-- A procedure without statements. -/
def idleProcedure (name : String) : Value :=
  .node (.sub (.text name) (.list []) (.list []) .null)

theorem evaluate_idleProcedure (name : String) (limit depth depth' : Nat) (args : Arguments) :
    evaluate limit (depth + 1) (idleProcedure name) args =
      evaluate limit (depth' + 1) (idleProcedure name) args := by
  have hwalk : walk (.list []) = pure [] := walk_of_walk? rfl
  change evalSub _ _ _ (.list []) .null args = evalSub _ _ _ (.list []) .null args
  unfold evalSub
  rw [hwalk, pure_bind, pure_bind]
  rfl

/-- A machine with two of them, one with the name of a constant. -/
def reboundConstant : Machine :=
  { globals :=
    { constants := ⟨[("vbdirectory", idleProcedure "vbDirectory")]⟩
      others := ⟨[("g", idleProcedure "g")]⟩ } }

theorem reboundConstant_admitted : reboundConstant.Admitted True :=
  .of_tables (.of_entries (by decide)) (.of_entries (by decide)) (.of_entries (by decide))
    Heap.stocked_empty rfl rfl

theorem dispatches_reboundConstant :
    reboundConstant.Dispatches "vbDirectory" (idleProcedure "vbDirectory") :=
  ⟨rfl, rfl, rfl, rfl, rfl⟩

def idleCall : Value := .node (.call "g" (.list []))

/-- Behind arguments that run a procedure, the name of a constant stands for the constant again. The
direct call then takes a character of its text, and `Run` refuses to run a text. -/
theorem indirect_call_refused : ¬ ∀ (limit depth : Nat) (m : Machine) (name : String)
    (p params indirect : Value) (vs : List Value), m.Admitted True → m.Dispatches name p →
    '.' ∉ name.toList → isNotable name = false → (∀ v ∈ vs, v.fits .operand = true) →
    params.walk? = some vs → indirect.walk? = some (.text name :: vs) →
    (∀ args m₁, callArguments (evaluate limit (depth + 1)) params m = .ok args m₁ →
      evaluate limit (depth + 1) p (some args) m₁ = evaluate limit depth p (some args) m₁) →
    evaluate limit (depth + 2) (.node (.call "Run" indirect)) none m =
      evaluate limit (depth + 2) (.node (.call name params)) none m := by
  intro h
  have hsame := h 9 4 reboundConstant "vbDirectory" (idleProcedure "vbDirectory")
    (.list [idleCall]) (.list [.text "vbDirectory", idleCall]) [idleCall]
    reboundConstant_admitted dispatches_reboundConstant (by decide) (by decide) (by decide) rfl rfl
    fun args m₁ _ ↦ by rw [evaluate_idleProcedure _ _ 4 3]
  have hrefused := Eval.fails_congr hsame (· == .noMember)
  revert hrefused
  decide +kernel

end Semantics

end VbaTrace
