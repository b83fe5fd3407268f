import VbaTrace.Proofs.Evaluation
import VbaTrace.Proofs.Names

/-!
What a call statement runs. Its arguments are evaluated first; then its name is looked up, and the
procedure that is found runs with them. That a procedure ends because a name or an entry is missing,
however deep inside, is not told apart from its own name being missing, so the statement then goes
on to its next attempt, with the bare form of the name (`callAgain`).

A procedure that does not end in this way runs exactly once (`final_evalCallStatement`). One that
does is found again under its name, because its activation leaves the frame of the caller and the
procedures among the globals alone (`resolve?_after_run`), and runs a second time from where the
first run stopped (`final_callAgain`).
-/

set_option autoImplicit false

namespace VbaTrace

namespace Semantics

/-- The arguments of a call statement. It fails, before anything is called, when one of them cannot
be written. -/
def callArguments (evaluate : Evaluator) (params : Value) : Eval (List Value) := do
  let args ← evalArguments evaluate params
  ensureWritable (.list args)
  return args

/-- What a call statement tries when a name was missing. -/
def callAgain (evaluate : Evaluator) (shown : String) (args : List Value) : Eval Unit :=
  Eval.handle (callBare evaluate shown args) Fault.isMissing fun _ ↦
    callIndirectly evaluate shown args

/-- The name of a statement that neither shows a message nor calls a method of an object. -/
structure IsPlainName (shown : String) : Prop where
  notMessage : Text.lower shown ≠ "msgbox"
  undotted : Text.contains "." shown = false

section

variable {evaluate : Evaluator} {name params : Value} {m m₁ : Machine} {args : List Value}
  {shown : String} {p : Value}

theorem evalCallStatement_of_failed_arguments {f : Fault}
    (h : callArguments evaluate params m = .error f m₁) :
    evalCallStatement evaluate name params m = .error f m₁ := by
  unfold callArguments at h
  unfold evalCallStatement
  cases hargs : evalArguments evaluate params m with
  | error e m₂ =>
    rw [Eval.bind_of_error hargs] at h ⊢
    cases h
    rfl
  | ok args m₂ =>
    rw [Eval.bind_of_ok hargs] at h ⊢
    cases hwritable : ensureWritable (.list args) m₂ with
    | error e m₃ =>
      rw [Eval.bind_of_error hwritable] at h ⊢
      cases h
      rfl
    | ok u m₃ =>
      rw [Eval.bind_of_ok hwritable] at h
      exact nomatch h

/-- Behind its arguments, a call statement runs what its name stands for. -/
theorem evalCallStatement_of_arguments (hargs : callArguments evaluate params m = .ok args m₁)
    (hshown : displayed name m₁ = .ok shown m₁) (hplain : IsPlainName shown) :
    evalCallStatement evaluate name params m =
      (Eval.handle (do let _ ← evaluate (← fetch (.text shown)) (some args)) Fault.isMissing
        (fun _ ↦ callAgain evaluate shown args) >>= fun _ ↦ pure Value.null) m₁ := by
  unfold callArguments at hargs
  unfold evalCallStatement
  cases hvalues : evalArguments evaluate params m with
  | error e m₂ =>
    rw [Eval.bind_of_error hvalues] at hargs
    exact nomatch hargs
  | ok values m₂ =>
    rw [Eval.bind_of_ok hvalues] at hargs ⊢
    cases hwritable : ensureWritable (.list values) m₂ with
    | error e m₃ =>
      rw [Eval.bind_of_error hwritable] at hargs
      exact nomatch hargs
    | ok u m₃ =>
      rw [Eval.bind_of_ok hwritable] at hargs ⊢
      cases hargs
      rw [Eval.bind_of_ok hshown]
      dsimp only
      rw [if_neg (by simpa using hplain.notMessage), if_neg (by simp [hplain.undotted])]
      rfl

/-- The procedure runs once, and the statement goes on only when it ends because something is
missing. -/
theorem final_evalCallStatement (hargs : callArguments evaluate params m = .ok args m₁)
    (hshown : displayed name m₁ = .ok shown m₁) (hplain : IsPlainName shown)
    (hp : m₁.resolve? shown = some p) :
    (evalCallStatement evaluate name params).final m =
      if (evaluate p (some args)).fails Fault.isMissing m₁ then
        (callAgain evaluate shown args).final ((evaluate p (some args)).final m₁)
      else (evaluate p (some args)).final m₁ := by
  have htarget : (do let _ ← evaluate (← fetch (.text shown)) (some args) : Eval Unit) m₁ =
      (evaluate p (some args) >>= fun _ ↦ (pure () : Eval Unit)) m₁ :=
    Eval.bind_of_ok (fetch_of_some hp) _
  rw [Eval.final_congr (evalCallStatement_of_arguments hargs hshown hplain),
    Eval.final_bind_of_still _ fun _ _ ↦ rfl, Eval.final_handle, Eval.final_congr htarget,
    Eval.fails_congr htarget, Eval.final_ignored, Eval.fails_ignored]

theorem truth_of_isSubOrFunction (hp : p.isSubOrFunction = true) (m : Machine) :
    truth p m = .ok true m := by
  cases p with
  | node n => rfl
  | _ => exact Bool.noConfusion hp

/-- A procedure whose name is bare already, and still stands for it, is run by the next attempt. -/
theorem final_callAgain (hbare : bareName shown = shown) (hindirect : shown ∉ runNames)
    (hp : m.resolve? shown = some p) (hprocedure : p.isSubOrFunction = true) :
    (callAgain evaluate shown args).final m = (evaluate p (some args)).final m := by
  have htarget : callBare evaluate shown args m =
      (evaluate p (some args) >>= fun _ ↦ (pure () : Eval Unit)) m := by
    unfold callBare
    rw [hbare, Eval.bind_of_ok (fetch_of_some hp),
      Eval.bind_of_ok (truth_of_isSubOrFunction hprocedure m)]
    rfl
  have hsilent : callIndirectly evaluate shown args = pure () := by
    rw [callIndirectly, if_neg (by simpa using hindirect)]
  rw [callAgain, hsilent, Eval.final_handle, Eval.final_pure, ite_self, Eval.final_congr htarget,
    Eval.final_ignored]

end

section

variable (rounds depth : Nat)

theorem frame_after_run {p : Value} (hp : p.isSubOrFunction = true) (args : Arguments)
    (m : Machine) : ((Semantics.evaluate rounds depth p args).final m).frame = m.frame := by
  cases depth with
  | zero => rfl
  | succ depth =>
    cases p with
    | node n =>
      cases n with
      | sub => exact final_inNewFrame_frame _ m
      | function => exact final_inNewFrame_frame _ m
      | _ => exact Bool.noConfusion hp
    | _ => exact Bool.noConfusion hp

/-- A name that stands for a procedure does so after the procedure has run. -/
theorem resolve?_after_run {p : Value} (hprocedure : p.isSubOrFunction = true) {m : Machine}
    {shown : String} (hname : m.Unreserved shown) (hp : m.resolve? shown = some p)
    (args : Arguments) :
    ((Semantics.evaluate rounds depth p args).final m).resolve? shown = some p :=
  resolve?_procedure (frame_after_run rounds depth hprocedure args m)
    (changes_evaluate rounds depth p args m).globals_stable hprocedure hname hp

/-- A name whose bare form is itself, and which does not run what its argument names. -/
structure IsBareName (shown : String) : Prop where
  bare : bareName shown = shown
  direct : shown ∉ runNames

/-- A call statement whose arguments fail runs nothing. Otherwise the procedure that its name stands
for runs once, and what this run leaves is what the statement leaves, unless the run ends because a
name or an entry is missing. Then the next attempt starts from what the run left, and for an
ordinary name it is a second run of the procedure. -/
theorem callStatement_runs_target (name params : Value) (own : Arguments) (m : Machine)
    {shown : String} (hplain : IsPlainName shown) :
    (∀ f m₁, callArguments (Semantics.evaluate rounds depth) params m = .error f m₁ →
        Semantics.evaluate rounds (depth + 1) (.node (.callStatement name params)) own m =
          .error f m₁) ∧
      ∀ args m₁ p, callArguments (Semantics.evaluate rounds depth) params m = .ok args m₁ →
        displayed name m₁ = .ok shown m₁ → m₁.resolve? shown = some p →
        p.isSubOrFunction = true →
        (Semantics.evaluate rounds (depth + 1) (.node (.callStatement name params)) own).final m =
            (if (Semantics.evaluate rounds depth p (some args)).fails Fault.isMissing m₁ then
              (callAgain (Semantics.evaluate rounds depth) shown args).final
                ((Semantics.evaluate rounds depth p (some args)).final m₁)
            else (Semantics.evaluate rounds depth p (some args)).final m₁) ∧
          (IsBareName shown → m₁.Unreserved shown →
            (callAgain (Semantics.evaluate rounds depth) shown args).final
                ((Semantics.evaluate rounds depth p (some args)).final m₁) =
              (Semantics.evaluate rounds depth p (some args)).final
                ((Semantics.evaluate rounds depth p (some args)).final m₁)) := by
  refine ⟨fun f m₁ hfailed ↦ evalCallStatement_of_failed_arguments hfailed,
    fun args m₁ p hargs hshown hp hprocedure ↦ ⟨?_, fun hbare hname ↦ ?_⟩⟩
  · exact final_evalCallStatement hargs hshown hplain hp
  · have hagain := resolve?_after_run rounds depth hprocedure hname hp (some args)
    exact final_callAgain hbare.bare hbare.direct hagain hprocedure

end

/-- A procedure that shows a message and then writes to a file that is not open. -/
def failing : Node :=
  .sub (.text "p") .empty
    (.tokens (.ofList [.node (.callStatement (.text "MsgBox") (.tokens (.one (.text "hi")))),
      .node (.print (.text "#1") (.text "x"))]))
    .null

def holdingFailing : Machine :=
  { globals := { others := ⟨[("p", .node failing)]⟩ } }

theorem isPlainName_p : IsPlainName "p" :=
  ⟨by decide, by decide⟩

/-- The call of this procedure leaves what two runs of it leave. -/
theorem callStatement_runs_failing_twice :
    IsPlainName "p" ∧ IsBareName "p" ∧ holdingFailing.Unreserved "p" ∧
      (Semantics.evaluate 1 9 (.node failing) (some [])).fails Fault.isMissing holdingFailing =
        true ∧
      (Semantics.evaluate 1 10 (.node (.callStatement (.text "p") .empty)) none).final
          holdingFailing =
        (Semantics.evaluate 1 9 (.node failing) (some [])).final
          ((Semantics.evaluate 1 9 (.node failing) (some [])).final holdingFailing) := by
  have hbare : IsBareName "p" := ⟨by decide, by decide⟩
  have hname : holdingFailing.Unreserved "p" := ⟨by decide, by decide⟩
  have hfails : (Semantics.evaluate 1 9 (.node failing) (some [])).fails Fault.isMissing
      holdingFailing = true := by decide +kernel
  obtain ⟨hruns, htwice⟩ := (callStatement_runs_target 1 9 (.text "p") .empty none holdingFailing
    isPlainName_p).2 [] holdingFailing (.node failing) rfl (displayed_text "p" _) rfl rfl
  refine ⟨isPlainName_p, hbare, hname, hfails, ?_⟩
  rw [hruns, if_pos hfails, htwice hbare hname]

/-- What its body does before it fails is done twice by one call statement. -/
theorem callStatement_repeats_target : ¬ ∀ (name params : Value) (m m₁ : Machine)
    (args : List Value) (shown : String) (p : Value),
    callArguments Semantics.run params m = .ok args m₁ → displayed name m₁ = .ok shown m₁ →
    IsPlainName shown → m₁.resolve? shown = some p → p.isSubOrFunction = true →
    ((Semantics.run (.node (.callStatement name params)) none).final m).actions =
      ((Semantics.run p (some args)).final m₁).actions := by
  intro h
  have hsame := h (.text "p") .empty holdingFailing holdingFailing [] "p" (.node failing) rfl
    (displayed_text "p" _) isPlainName_p rfl rfl
  have hsizes := congrArg Array.size hsame
  revert hsizes
  decide +kernel

end Semantics

end VbaTrace
