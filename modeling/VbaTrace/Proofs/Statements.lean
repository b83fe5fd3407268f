import VbaTrace.Proofs.LoopRounds
import VbaTrace.Proofs.Operands
import VbaTrace.Proofs.Splices

/-!
Evaluation of assignments, blocks, loops, calls, file statements and procedures respects roles:
given an evaluator that does, each rule for a statement makes only the changes of a statement, and
what it assigns are operands. Loops are inductions over their bound on rounds, blocks over their
statements.
-/

set_option autoImplicit false

namespace VbaTrace.Semantics

section

variable {P : Value → Prop} (l : EvalLogic P) {evaluate : Evaluator}

theorem holds_isAtMost (v : Value) (n : Int) : l.Holds (isAtMost v n) fun _ ↦ True :=
  l.bind (l.read_resolved v) fun _ _ ↦ l.ofExcept fun _ _ ↦ True.intro

theorem holds_guardHolds {guard : Value} {Q : Value → Prop}
    (hguard : l.Holds (evalOperand evaluate guard) Q) (kind : Value) :
    l.Holds (guardHolds evaluate kind guard) fun _ ↦ True := by
  refine l.bind hguard fun v _ ↦ l.bind (l.ofExcept fun _ _ ↦ True.intro) fun word _ ↦ ?_
  split
  · exact l.bind (holds_truth l v) fun _ _ ↦ l.pure True.intro
  · exact holds_truth l v

theorem holds_bindParameters {params : List Value}
    (hstore : ∀ p ∈ params, ∀ name, parameterName p = .ok name → ∀ v, P v →
      l.Holds (store name v none) fun _ ↦ True) {args : List Value} (hargs : ∀ v ∈ args, P v) :
    l.Holds (bindParameters params args) fun _ ↦ True := by
  induction params generalizing args with
  | nil =>
    cases args with
    | nil => exact l.pure True.intro
    | cons a as => exact l.throw _
  | cons p ps ih =>
    cases args with
    | nil => exact l.pure True.intro
    | cons a as =>
      obtain ⟨ha, has⟩ := List.forall_mem_cons.mp hargs
      obtain ⟨hp, hps⟩ := List.forall_mem_cons.mp hstore
      refine l.bind (l.ofExcept fun name hname ↦ hname) fun name hname ↦ ?_
      refine l.bind (l.ensureWritable a) fun _ _ ↦ ?_
      exact l.bind (hp name hname a ha) fun _ _ ↦ ih hps has

theorem holds_assignElement {name index value : Value}
    (hstore : ∀ v, P v → l.Holds (store name v none) fun _ ↦ True)
    (hindex : l.Holds (evalOperand evaluate index) P)
    (hname : l.Holds (fetchWhole name) P)
    (hupdate : ∀ whole, P whole → ∀ place,
      l.Holds (do updateWhole whole (← opened whole) place value) P) :
    l.Holds (assignElement evaluate name index value) fun _ ↦ True := by
  refine l.bind hindex fun i _ ↦ l.bind (l.read_opened i) fun _ _ ↦ ?_
  refine l.bind (l.ofExcept fun _ _ ↦ True.intro) fun place _ ↦ ?_
  generalize Value.int place = shown
  refine l.bind (l.ensureWritable shown) fun _ _ ↦ l.bind hname fun whole hwhole ↦ ?_
  rw [← bind_assoc]
  exact l.bind (hupdate whole hwhole place) hstore

/-! Plans of loops -/

theorem holds_nextItem {container : Value} {items : List Value} (hitems : ∀ v ∈ items, P v)
    (place : Nat) :
    l.Holds (nextItem container items place) fun found ↦ ∀ v, found = some v → P v := by
  unfold nextItem
  split
  · refine l.get (fun m hm ↦ l.pure fun v hv ↦ ?_) fun m m' hsame ↦ by rw [hsame.heap]
    exact hm.heap _ v (List.mem_of_getElem? hv)
  · exact l.pure fun v hv ↦ hitems v (List.mem_of_getElem? hv)

/-- The rounds of the plan evaluate statements of a kind. -/
structure LoopPlan.Lists (p : LoopPlan) (K : Value → Prop) : Prop where
  next : ∀ place, l.Holds (p.next place) fun found ↦ ∀ ss, found = some ss → ∀ s ∈ ss, K s
  goesOn : l.Holds p.goesOn fun _ ↦ True

section

variable {K : Value → Prop} {body : Value} (hbody : l.Holds (walk body) fun ss ↦ ∀ s ∈ ss, K s)

include hbody

theorem holds_round :
    l.Holds (do return some (← walk body)) fun found ↦ ∀ ss, found = some ss → ∀ s ∈ ss, K s :=
  l.bind hbody fun _ hss ↦ l.pure fun _ heq ↦ Option.some.inj heq ▸ hss

theorem lists_itemPlan {item container : Value} (hfetch : l.Holds (fetch item) P)
    (hstore : ∀ v, P v → l.Holds (store item v none) fun _ ↦ True)
    (hcontainer : l.Holds (walk container) fun vs ↦ ∀ v ∈ vs, P v) :
    (itemPlan item container body).Lists l K where
  next place := by
    refine l.bind hcontainer fun items hitems ↦ ?_
    refine l.bind (holds_nextItem l hitems place) fun found hfound ↦ ?_
    split
    · exact l.pure nofun
    · next v =>
      refine l.bind (hstore v (hfound v rfl)) fun _ _ ↦ l.bind hfetch fun w _ ↦ ?_
      exact l.bind (l.ensureWritable w) fun _ _ ↦ holds_round l hbody
  goesOn := l.pure True.intro

theorem lists_whilePlan {guard : Value} {Q : Value → Prop}
    (hguard : l.Holds (evalOperand evaluate guard) Q) (kind : Value) :
    (whilePlan evaluate kind guard body).Lists l K where
  next _ := by
    refine l.bind (holds_guardHolds l hguard kind) fun holds _ ↦ ?_
    split
    · exact holds_round l hbody
    · exact l.pure nofun
  goesOn := l.pure True.intro

end

theorem lists_doPlan {K : Value → Prop} {body : List Value} (hbody : ∀ s ∈ body, K s)
    {guard : Value} {Q : Value → Prop} (hguard : l.Holds (evalOperand evaluate guard) Q)
    (kind : Value) : (doPlan evaluate kind guard body).Lists l K where
  next _ := l.pure fun _ heq ↦ Option.some.inj heq ▸ hbody
  goesOn := holds_guardHolds l hguard kind

variable [ValueKind P]

/-! Assignments -/

theorem of_convertFor (type : Value) {value opened : Value} (hvalue : P value) :
    P (convertFor type value opened) := by
  unfold convertFor
  split
  · split_ifs
    · refine (ValueKind.list_iff _).mpr fun v hv ↦ ?_
      obtain ⟨c, -, hvc⟩ := List.mem_flatMap.mp hv
      rw [List.mem_cons, List.mem_singleton] at hvc
      rcases hvc with rfl | rfl <;> exact ValueKind.int _
    · exact hvalue
  · next items =>
    split_ifs
    · cases listAsText items with
      | none => exact hvalue
      | some s => exact ValueKind.text s
    · exact hvalue
  · exact hvalue

theorem holds_updateText (s : String) (place : Int) (value : Value) :
    l.Holds (updateText s place value) P := by
  unfold updateText
  refine l.bind (l.ofExcept fun _ _ ↦ True.intro) fun longer _ ↦ ?_
  split
  · exact l.pure (ValueKind.text _)
  · split
    · exact l.pure (ValueKind.text _)
    · exact l.pure (ValueKind.text _)
  · exact l.pure (ValueKind.text _)

theorem of_extendTo {items longer : List Value} (hitems : ∀ v ∈ items, P v) {place : Int}
    (hlonger : extendTo (.int 0) items place = .ok longer) : ∀ v ∈ longer, P v := by
  rw [eq_of_extendTo hlonger]
  refine List.forall_mem_append.mpr ⟨hitems, fun v hv ↦ ?_⟩
  rw [List.eq_of_mem_replicate hv]
  exact ValueKind.int 0

theorem of_splice {longer : List Value} (hlonger : ∀ v ∈ longer, P v) (place : Int) {value : Value}
    (hvalue : P value) : P (.list (splice longer place [value])) := by
  refine (ValueKind.list_iff _).mpr fun v hv ↦ ?_
  unfold splice at hv
  rw [List.mem_append, List.mem_append] at hv
  rcases hv with (hv | hv) | hv
  · exact hlonger v (List.mem_of_mem_take hv)
  · rw [List.mem_singleton.mp hv]
    exact hvalue
  · exact hlonger v (List.mem_of_mem_drop hv)

theorem holds_evalAssign {name index expression : Value}
    (hstore : ∀ v, P v → l.Holds (store name v none) fun _ ↦ True)
    (hexpression : l.Holds (evalOperand evaluate expression) P)
    (htype : l.Holds (typeOf name) fun _ ↦ True)
    (helement : index.isNull = false → ∀ value, P value →
      l.Holds (assignElement evaluate name index value) fun _ ↦ True) :
    l.Holds (evalAssign evaluate name index expression) P := by
  refine l.bind hexpression fun value hvalue ↦ l.bind (l.ensureWritable value) fun _ _ ↦ ?_
  dsimp only
  split
  · refine l.bind htype fun type _ ↦ l.bind (l.read_opened value) fun _ _ ↦ ?_
    exact l.bind (hstore _ (of_convertFor type hvalue)) fun _ _ ↦ l.pure ValueKind.null
  · next hindex =>
    exact l.bind (helement (Bool.eq_false_of_not_eq_true hindex) value hvalue) fun _ _ ↦
      l.pure ValueKind.null

theorem of_declaredAs {initial : Value} (hinitial : P initial) {isArray : Bool} {type : Value}
    {declared : Value × Option Value} (h : declaredAs initial isArray type = .ok declared) :
    P declared.1 := by
  unfold declaredAs at h
  split at h
  · exact Except.ok.inj h ▸ hinitial
  · split_ifs at h
    · exact Except.ok.inj h ▸ (ValueKind.list_iff _).mpr fun _ hv ↦ nomatch hv
    · exact Except.ok.inj h ▸ ValueKind.int 0
    · exact Except.ok.inj h ▸ ValueKind.text _
    · exact Except.ok.inj h ▸ hinitial
  · split_ifs at h
    exact Except.ok.inj h ▸ hinitial

theorem holds_declareAll {initial : Value} (hinitial : P initial) {declared : List Declared}
    (hstore : ∀ name isArray type, .mk name isArray type ∈ declared → ∀ v recorded, P v →
      l.Holds (store name v recorded) fun _ ↦ True) :
    l.Holds (declareAll initial declared) fun _ ↦ True := by
  induction declared with
  | nil => exact l.pure True.intro
  | cons d ds ih =>
    obtain ⟨name, isArray, type⟩ := d
    refine l.bind (l.ofExcept fun _ h ↦ of_declaredAs hinitial h) fun entry hentry ↦ ?_
    refine l.bind (hstore name isArray type List.mem_cons_self entry.1 entry.2 hentry) fun _ _ ↦ ?_
    exact ih fun name isArray type hd ↦ hstore name isArray type (List.mem_cons_of_mem _ hd)

theorem holds_evalDim {initial : Value} (hinitial : l.Holds (evalOperand evaluate initial) P)
    (hshare : ∀ v, P v → l.Holds (share v) P) {declared : List Declared}
    (hstore : ∀ name isArray type, .mk name isArray type ∈ declared → ∀ v recorded, P v →
      l.Holds (store name v recorded) fun _ ↦ True) :
    l.Holds (evalDim evaluate initial declared) P := by
  have hdeclare {value : Value} (hvalue : P value) : l.Holds (do
      declareAll (← share value) declared
      return .null) P :=
    l.bind (hshare value hvalue) fun _ hw ↦
      l.bind (holds_declareAll l hw hstore) fun _ _ ↦ l.pure ValueKind.null
  unfold evalDim
  dsimp only
  split
  · exact l.bind (l.pure (ValueKind.text _)) fun _ hvalue ↦ hdeclare hvalue
  · exact l.bind hinitial fun _ hvalue ↦ hdeclare hvalue

/-! Parts of loops -/

theorem holds_advanced {v step : Value} (hv : P v) (hstep : P step) :
    l.Holds (advanced v step) P :=
  l.bind (l.opened hv) fun _ hv ↦ l.bind (l.opened hstep) fun _ hstep ↦
    l.ofExcept (Value.gives_add hv hstep)

theorem holds_loopStep {step : Value} (hstep : l.Holds (evalOperand evaluate step) P) :
    l.Holds (loopStep evaluate step) P := by
  unfold loopStep
  split
  · exact l.pure (ValueKind.int 1)
  · exact l.bind hstep fun v hv ↦ l.bind (l.ensureWritable v) fun _ _ ↦ l.pure hv

theorem lists_countingPlan {K : Value → Prop} {body : Value}
    (hbody : l.Holds (walk body) fun ss ↦ ∀ s ∈ ss, K s) {name step : Value}
    (hfetch : l.Holds (fetch name) P)
    (hstore : ∀ v, P v → l.Holds (store name v none) fun _ ↦ True) (hstep : P step) (stop : Int) :
    (countingPlan name stop step body).Lists l K where
  next _ := by
    refine l.bind hfetch fun v _ ↦ l.bind (holds_isAtMost l v stop) fun runs _ ↦ ?_
    split
    · exact l.bind (l.ensureWritable v) fun _ _ ↦ holds_round l hbody
    · exact l.pure nofun
  goesOn := l.bind hfetch fun _ hv ↦ l.bind (holds_advanced l hv hstep) fun w hw ↦
    l.bind (hstore w hw) fun _ _ ↦ l.pure True.intro

/-! Calls and parameters -/

/-- What is known of the shown name is all that is asked of the calls. -/
theorem holds_evalCallStatement {name params : Value} {S : String → Prop}
    (hname : l.Holds (displayed name) S)
    (hparams : l.Holds (evalArguments evaluate params) fun ws ↦ ∀ w ∈ ws, P w)
    (hcall : ∀ shown, S shown → ∀ args, (∀ v ∈ args, P v) →
      l.Holds (do let _ ← evaluate (← fetch (.text shown)) (some args)) fun _ ↦ True)
    (hbare : ∀ shown, S shown → ∀ args, (∀ v ∈ args, P v) →
      l.Holds (callBare evaluate shown args) fun _ ↦ True)
    (hrun : ∀ shown, S shown → runNames.contains shown = true → ∀ args, (∀ v ∈ args, P v) →
      l.Holds (runIndirectly evaluate args) P) :
    l.Holds (evalCallStatement evaluate name params) P := by
  refine l.bind hparams fun args hargs ↦ l.bind (l.ensureWritable _) fun _ _ ↦ ?_
  refine l.bind hname fun shown hshown ↦ ?_
  have hcalls : l.Holds (do
      Eval.handle
        (do let _ ← evaluate (← fetch (.text shown)) (some args))
        Fault.isMissing fun _ ↦
          Eval.handle (callBare evaluate shown args) Fault.isMissing fun _ ↦
            callIndirectly evaluate shown args
      return Value.null) P := by
    refine l.bind (l.handle (hcall shown hshown args hargs) fun _ ↦
      l.handle (hbare shown hshown args hargs) fun _ ↦ ?_) fun _ _ ↦ l.pure ValueKind.null
    unfold callIndirectly
    split
    · next hshows =>
      refine l.handle ?_ fun _ ↦ l.pure True.intro
      exact l.bind (hrun shown hshown hshows args hargs) fun _ _ ↦ l.pure True.intro
    · exact l.pure True.intro
  dsimp only
  split
  · split
    · exact l.throw_bind _ _
    · refine l.bind (l.read_resolved _) fun _ _ ↦ l.bind (l.report (by decide) _ _) fun _ _ ↦ ?_
      exact l.pure (ValueKind.int 1)
  · split
    · refine l.bind (holds_shownArguments l _) fun _ _ ↦ ?_
      exact l.bind (l.report (by decide) _ _) fun _ _ ↦ hcalls
    · exact hcalls

theorem holds_returnValue {name : Value} (hfetch : l.Holds (fetch name) P)
    (hstore : l.Holds (store name .empty none) fun _ ↦ True) : l.Holds (returnValue name) P := by
  have hreturn {v : Value} (hv : P v) : l.Holds (do
      ensureWritable v
      return v) P :=
    l.bind (l.ensureWritable v) fun _ _ ↦ l.pure hv
  refine l.handle ?_ fun _ ↦ l.bind hstore fun _ _ ↦ l.pure ValueKind.null
  refine l.bind hfetch fun v hv ↦ ?_
  dsimp only
  split
  · refine l.bind hstore fun _ _ ↦ ?_
    exact l.bind (l.pure (ValueKind.text _)) fun _ hw ↦ hreturn hw
  · exact l.bind (l.pure hv) fun _ hw ↦ hreturn hw

/-- The logic of the activation may be another one. -/
theorem holds_evalExternal (l' : EvalLogic P)
    (hframe : ∀ {x : Eval Value}, l.Holds x P → l'.Holds (inNewFrame x) P)
    (name library exported : Value) (args : Arguments) :
    l'.Holds (evalExternal name library exported args) P := by
  have hargument (place : Nat) : l.Holds (Eval.ofExcept (argumentAt args place)) fun _ ↦ True :=
    l.ofExcept fun _ _ ↦ True.intro
  refine hframe ?_
  extract_lets description recorded
  have hrecorded : l.Holds (recorded ()) P := by
    refine l.bind (l.ofExcept fun _ _ ↦ True.intro) fun key _ ↦ ?_
    refine l.bind (l.ofExcept fun _ _ ↦ True.intro) fun source _ ↦ ?_
    split
    · refine l.bind (hargument 1) fun _ _ ↦ l.bind (l.report (by decide) _ _) fun _ _ ↦ ?_
      refine l.bind (hargument 2) fun _ _ ↦ l.bind (l.report (by decide) _ _) fun _ _ ↦ ?_
      exact l.pure (ValueKind.int 0)
    · split
      · refine l.bind (hargument 2) fun v _ ↦ l.bind (l.displayed v) fun _ _ ↦ ?_
        refine l.bind (hargument 3) fun w _ ↦ l.bind (l.displayed w) fun _ _ ↦ ?_
        exact l.bind (l.report (by decide) _ _) fun _ _ ↦ l.pure (ValueKind.int 0)
      · exact l.pure ValueKind.null
  split
  · exact l.bind (l.ensureWritable _) fun _ _ ↦ hrecorded
  · exact hrecorded

end

/-! Assignments respect roles -/

variable {strict : Prop} {role : Role} {evaluate : Evaluator}

/-- A list in a cell is lengthened there, when its items are still those in the cell. -/
theorem meets_updateList {m : Machine} {whole : Value} {items : List Value} (place : Int)
    {value : Value} (hitems : ∀ v ∈ items, Admits strict .operand v)
    (hvalue : Admits strict .operand value)
    (hwhole : ∀ cell, whole = .array cell → items = m.heap.read cell) :
    Meets strict .assignment m (Admits strict .operand) (updateList whole items place value m) := by
  unfold updateList
  cases hlonger : extendTo (.int 0) items place with
  | error f => exact .refl .assignment m
  | ok longer =>
    have hnew := of_splice (of_extendTo hitems hlonger) place hvalue
    cases whole with
    | array cell =>
      rw [eq_of_extendTo hlonger, hwhole cell rfl] at hnew ⊢
      exact ⟨.lengthen .assignment m cell _ fun _ ↦ rfl, hnew⟩
    | _ => exact ⟨.refl .assignment m, hnew⟩

theorem meets_updateWhole {m : Machine} (hm : m.Admitted strict) {whole : Value}
    (hwhole : Admits strict .operand whole) (place : Int) {value : Value}
    (hvalue : Admits strict .operand value) :
    Meets strict .assignment m (Admits strict .operand)
      (updateWhole whole (m.heap.opened whole) place value m) := by
  unfold updateWhole
  cases hopened : m.heap.opened whole with
  | text s => exact holds_updateText (Ensures.logic strict .assignment) s place value m hm
  | list items =>
    have hitems := hm.heap.opened hwhole
    rw [hopened, admits_list_iff] at hitems
    refine meets_updateList place hitems hvalue fun cell hcell ↦ ?_
    subst whole
    exact (Value.list.inj hopened).symm
  | _ => exact meets_updateList place (fun _ h ↦ nomatch h) hvalue fun _ h ↦ nomatch h

theorem ensures_evalAssign (he : Evaluates strict evaluate) (name : Value)
    {index expression : Value} (hindex : Admits strict .operand index)
    (hexpression : Admits strict .operand expression) :
    Ensures strict .assignment (evalAssign evaluate name index expression)
      (Admits strict .operand) := by
  let l := Ensures.logic strict .assignment
  have hstore (v : Value) (hv : Admits strict .operand v) :
      Ensures strict .assignment (store name v none) fun _ ↦ True :=
    .store name hv none fun _ ↦ rfl
  refine holds_evalAssign l hstore (ensures_evalOperand he hexpression).of_operand (.typeOf name)
    fun _ value hvalue ↦ ?_
  refine holds_assignElement l hstore (ensures_evalOperand he hindex).of_operand
    (.handle (.fetch name) fun _ ↦ .pure admits_null) fun whole hwhole place ↦ ?_
  exact .opened_bind fun m hm ↦ meets_updateWhole hm hwhole place hvalue

theorem ensures_evalDim (he : Evaluates strict evaluate) {initial : Value}
    (hinitial : Admits strict .operand initial) (declared : List Declared) :
    Ensures strict .assignment (evalDim evaluate initial declared) (Admits strict .operand) :=
  holds_evalDim (Ensures.logic strict .assignment) (ensures_evalOperand he hinitial).of_operand
    (fun _ hv ↦ .share hv fun _ ↦ rfl) fun name _ _ _ _ type hv ↦ .store name hv type fun _ ↦ rfl

/-! Blocks and loops -/

theorem ensures_evalBlock (he : Evaluates strict evaluate) {args : Arguments}
    (hargs : AdmitsArguments strict args) {body : List Value}
    (hbody : ∀ s ∈ body, Admits strict .statement s) :
    Ensures strict .statement (evalBlock evaluate args body) fun _ ↦ True := by
  induction body with
  | nil => exact .pure True.intro
  | cons s ss ih =>
    obtain ⟨hs, hss⟩ := List.forall_mem_cons.mp hbody
    exact (he .statement s args hs hargs).bind fun _ _ ↦ ih hss

theorem ensures_pushLoop : Ensures strict .statement pushLoop fun _ ↦ True :=
  .modifyControl fun fr ↦ ⟨_, fr.withName, fr.exited, rfl⟩

theorem ensures_popLoop : Ensures strict .statement popLoop fun _ ↦ True := by
  refine Ensures.get.bind fun m _ ↦ ?_
  split
  · exact .throw _
  · exact .modifyControl fun fr ↦ ⟨_, fr.withName, fr.exited, rfl⟩

theorem ensures_loopRuns : Ensures strict role loopRuns fun _ ↦ True := by
  refine Ensures.get.bind fun m _ ↦ ?_
  split
  · exact .throw _
  · exact .pure True.intro

theorem ensures_evalBody (he : Evaluates strict evaluate) {body : List Value}
    (hbody : ∀ s ∈ body, Admits strict .statement s) :
    Ensures strict .statement (evalBody evaluate body) fun _ ↦ True := by
  induction body with
  | nil => exact .pure True.intro
  | cons s ss ih =>
    obtain ⟨hs, hss⟩ := List.forall_mem_cons.mp hbody
    refine (Ensures.ensureWritable s).bind fun _ _ ↦ ?_
    refine (he .statement s none hs admitsArguments_none).bind fun _ _ ↦ ?_
    refine ensures_loopRuns.bind fun runs _ ↦ ?_
    split
    · exact ih hss
    · exact .pure True.intro

theorem ensures_loopStep (he : Evaluates strict evaluate) {step : Value}
    (hstep : Admits strict .operand step) :
    Ensures strict .operand (loopStep evaluate step) (Admits strict .operand) :=
  holds_loopStep (Ensures.logic strict .operand) (ensures_evalOperand he hstep)

/-- The rounds of the plan are of statements, and what it does besides respects their role. -/
def LoopPlan.Respects (strict : Prop) (p : LoopPlan) : Prop :=
  p.Lists (Ensures.logic strict .statement) (Admits strict .statement)

theorem ensures_run (he : Evaluates strict evaluate) {p : LoopPlan} (hp : p.Respects strict)
    (rounds place : Nat) :
    Ensures strict .statement (p.run evaluate rounds place) fun _ ↦ True := by
  induction rounds generalizing place with
  | zero => exact .throw _
  | succ rounds ih =>
    refine Ensures.bind (hp.next place) fun found hfound ↦ ?_
    split
    · exact .pure True.intro
    · next body =>
      refine (ensures_evalBody he (hfound body rfl)).bind fun left _ ↦ ?_
      split
      · exact .pure True.intro
      · refine Ensures.bind hp.goesOn fun more _ ↦ ?_
        split
        · exact ih (place + 1)
        · exact .pure True.intro

theorem ensures_enterCounting (he : Evaluates strict evaluate) (name : Value)
    {start stop step body : Value} (hstart : Admits strict .operand start)
    (hstop : Admits strict .operand stop) (hstep : Admits strict .operand step)
    (hbody : Admits strict .statement body) :
    Ensures strict .statement (enterCounting evaluate name start stop step body)
      (LoopPlan.Respects strict) := by
  let l := Ensures.logic strict .statement
  refine (ensures_evalOperand he hstart).of_operand.bind fun first hfirst ↦ ?_
  refine (Ensures.ensureWritable first).bind fun _ _ ↦ ?_
  refine (ensures_evalOperand he hstop).of_operand.bind fun last _ ↦ ?_
  extract_lets enters
  have henters : Ensures strict .statement (enters ()) (LoopPlan.Respects strict) := by
    refine Ensures.get.bind fun m _ ↦ ?_
    refine (ensures_loopStep he hstep).of_operand.bind fun step hstep ↦ ?_
    refine ensures_pushLoop.bind fun _ _ ↦ ?_
    refine (Ensures.store name hfirst none fun _ ↦ rfl).bind fun _ _ ↦ ?_
    exact .pure (lists_countingPlan l (ensures_walk hbody) (Ensures.fetch name)
      (fun _ hv ↦ Ensures.store name hv none fun _ ↦ rfl) hstep _)
  split
  · exact (Ensures.ensureWritable last).bind fun _ _ ↦ henters
  · exact henters

theorem ensures_enterLoop (he : Evaluates strict evaluate) {n : Node}
    (hn : Admits strict .statement (.node n)) :
    Ensures strict .statement (enterLoop evaluate n) (LoopPlan.Respects strict) := by
  let l := Ensures.logic strict .statement
  unfold Admits at hn
  cases n <;> simp only [Value.fits, Node.fits, Bool.and_eq_true] at hn
  case forLoop name _ _ _ _ =>
    exact ensures_enterCounting he name (fun hs ↦ (hn hs).2.1.1.1) (fun hs ↦ (hn hs).2.1.1.2)
      (fun hs ↦ (hn hs).2.1.2) fun hs ↦ (hn hs).2.2
  case forEach item container _ =>
    refine ensures_pushLoop.bind fun _ _ ↦ ?_
    refine (ensures_evalOperand he fun hs ↦ (hn hs).2.1).of_operand.bind fun value hvalue ↦ ?_
    refine Ensures.bind (.handle (.fetch container) fun _ ↦ .pure hvalue) fun found hfound ↦ ?_
    exact .pure (lists_itemPlan l (ensures_walk fun hs ↦ (hn hs).2.2) (Ensures.fetch item)
      (fun _ hv ↦ Ensures.store item hv none fun _ ↦ rfl) (ensures_walk hfound))
  case whileLoop kind _ _ =>
    refine ensures_pushLoop.bind fun _ _ ↦ .pure ?_
    exact lists_whilePlan l (ensures_walk fun hs ↦ (hn hs).2.2)
      (ensures_evalOperand he fun hs ↦ (hn hs).2.1).of_operand kind
  case doLoop kind _ _ =>
    refine ensures_pushLoop.bind fun _ _ ↦ (ensures_walk fun hs ↦ (hn hs).2.2).bind fun ss hss ↦ ?_
    exact .pure (lists_doPlan l hss (ensures_evalOperand he fun hs ↦ (hn hs).2.1).of_operand kind)
  all_goals exact .throw _

theorem ensures_loop (he : Evaluates strict evaluate) (rounds : Nat) {n : Node}
    (hloop : n.repeats = true) (hn : Admits strict .statement (.node n)) (args : Arguments) :
    Ensures strict .statement (evalNode evaluate rounds n args) (Admits strict .operand) := by
  rw [evalNode_loop evaluate rounds hloop]
  refine (ensures_enterLoop he hn).bind fun plan hplan ↦ ?_
  refine Ensures.bind (Q := fun _ ↦ True) ?_ fun _ _ ↦ ensures_popLoop.bind fun _ _ ↦
    .pure admits_null
  have hrun := ensures_run he hplan rounds 0
  unfold shielded
  split
  · exact .handle hrun fun _ ↦ .pure True.intro
  · exact hrun

/-! Selections and conditionals -/

theorem admits_selectCase {guard body : Value}
    (h : Admits strict .statement (.node (.selectCase guard body))) :
    Admits strict .statement guard ∧ Admits strict .statement body := by
  simp only [Admits, Value.fits, Node.fits, Bool.and_eq_true] at h
  exact ⟨fun hs ↦ (h hs).2.1, fun hs ↦ (h hs).2.2⟩

theorem ensures_evalCases (he : Evaluates strict evaluate) {args : Arguments}
    (hargs : AdmitsArguments strict args) {v : Value} (hv : Admits strict .operand v)
    {cases : List Value} (hcases : ∀ c ∈ cases, Admits strict .statement c) :
    Ensures strict .statement (evalCases evaluate args v cases) fun _ ↦ True := by
  induction cases with
  | nil => exact .pure True.intro
  | cons c cs ih =>
    obtain ⟨hc, hcs⟩ := List.forall_mem_cons.mp hcases
    refine Ensures.bind (Q := fun parts ↦ Admits strict .statement parts.1 ∧
      Admits strict .statement parts.2) (.ofExcept fun parts hparts ↦ ?_) fun parts hparts ↦ ?_
    · unfold caseParts at hparts
      split at hparts
      · rw [← Except.ok.inj hparts]
        exact admits_selectCase hc
      · exact nomatch hparts
    · refine (Ensures.ensureWritable v).bind fun _ _ ↦ ?_
      have hsubject : AdmitsArguments strict (some [v]) :=
        admitsArguments_some (List.forall_mem_singleton.mpr hv)
      refine (he .statement parts.1 _ hparts.1 hsubject).bind fun accepts _ ↦ ?_
      refine (ensures_truth accepts).bind fun holds _ ↦ ?_
      split
      · exact (ensures_walk hparts.2).bind fun _ hss ↦ ensures_evalBlock he hargs hss
      · exact ih hcs

theorem ensures_evalSelect (he : Evaluates strict evaluate) {args : Arguments}
    (hargs : AdmitsArguments strict args) {subject cases : Value}
    (hsubject : Admits strict .statement subject) (hcases : Admits strict .statement cases) :
    Ensures strict .statement (evalSelect evaluate args subject cases)
      (Admits strict .operand) := by
  refine (he .statement subject args hsubject hargs).bind fun v hv ↦ ?_
  refine (ensures_walk hcases).bind fun cs hcs ↦ ?_
  exact (ensures_evalCases he hargs hv hcs).bind fun _ _ ↦ .pure admits_null

theorem ensures_rangeEnds (he : Evaluates strict evaluate) {values : List Value}
    (hvalues : ∀ v ∈ values, Admits strict .operand v) :
    Ensures strict .operand (rangeEnds evaluate values) fun _ ↦ True := by
  unfold rangeEnds
  split
  · refine (ensures_evalOperand he (hvalues _ (by simp))).bind fun v _ ↦ ?_
    refine (Ensures.read_opened v).bind fun _ _ ↦ ?_
    refine (Ensures.ofExcept fun _ _ ↦ True.intro).bind fun _ _ ↦ ?_
    refine (ensures_evalOperand he (hvalues _ (by simp))).bind fun w _ ↦ ?_
    refine (Ensures.read_opened w).bind fun _ _ ↦ ?_
    exact (Ensures.ofExcept fun _ _ ↦ True.intro).bind fun _ _ ↦ .pure True.intro
  · exact .throw _

theorem ensures_listedValues (he : Evaluates strict evaluate) {values : List Value}
    (hvalues : ∀ v ∈ values, Admits strict .operand v) :
    Ensures strict .operand (listedValues evaluate values) fun _ ↦ True := by
  induction values with
  | nil => exact .pure True.intro
  | cons v vs ih =>
    obtain ⟨hv, hvs⟩ := List.forall_mem_cons.mp hvalues
    refine (ensures_evalOperand he hv).bind fun w _ ↦ ?_
    have hrest : Ensures strict .operand (do
        let ws ← listedValues evaluate vs
        return w :: ws) fun _ ↦ True :=
      (ih hvs).bind fun _ _ ↦ .pure True.intro
    dsimp only
    split
    · exact .throw_bind _ _
    · exact hrest

theorem ensures_evalCaseClause (he : Evaluates strict evaluate) (args : Arguments) {values : Value}
    (hvalues : Admits strict .operand values) (isRange isSet isElse : Bool) :
    Ensures strict .operand (evalCaseClause evaluate args values isRange isSet isElse)
      (Admits strict .operand) := by
  unfold evalCaseClause
  split
  · exact .throw _
  · exact .throw _
  · dsimp only
    split
    · exact .pure (admits_bool true)
    · refine (ensures_walk hvalues).bind fun listed hlisted ↦ ?_
      split
      · refine .handle ?_ fun _ ↦ .pure (admits_bool false)
        exact (ensures_rangeEnds he hlisted).bind fun _ _ ↦ .pure (admits_bool _)
      · split
        · refine Ensures.bind (Q := fun _ ↦ True) (.handle ?_ fun _ ↦ .pure True.intro)
            fun found _ ↦ ?_
          · exact (ensures_listedValues he hlisted).bind fun _ _ ↦ .pure True.intro
          · split
            · exact .pure (admits_bool false)
            · split
              · exact .throw_bind _ _
              · exact .pure (admits_bool _)
        · split
          · exact .throw _
          · refine (ensures_evalOperand he (hlisted _ (by simp))).bind fun w _ ↦ ?_
            exact (ensures_equal _ w).bind fun _ _ ↦ .pure (admits_bool _)

theorem admits_branch {guard body : Value} {bs : List Branch}
    (h : strict → branchesFit (.mk guard body :: bs) = true) :
    Admits strict .statement guard ∧ Admits strict .statement body ∧
      (strict → branchesFit bs = true) := by
  simp only [branchesFit, Branch.fits, Bool.and_eq_true] at h
  exact ⟨fun hs ↦ (h hs).1.1, fun hs ↦ (h hs).1.2, fun hs ↦ (h hs).2⟩

theorem ensures_evalBranches (he : Evaluates strict evaluate) {branches : List Branch}
    (hbranches : strict → branchesFit branches = true) :
    Ensures strict .statement (evalBranches evaluate branches) fun _ ↦ True := by
  induction branches with
  | nil => exact .pure True.intro
  | cons b bs ih =>
    obtain ⟨guard, body⟩ := b
    obtain ⟨hguard, hbody, hbs⟩ := admits_branch hbranches
    have hrest (holds : Bool) : Ensures strict .statement (do
        if holds then evalBlock evaluate none (← walk body)
        else evalBranches evaluate bs) fun _ ↦ True := by
      cases holds with
      | true =>
        exact (ensures_walk hbody).bind fun _ hss ↦ ensures_evalBlock he admitsArguments_none hss
      | false => exact ih hbs
    unfold evalBranches
    dsimp only
    split
    · exact Ensures.bind (Q := fun _ ↦ True) (.pure True.intro) fun holds _ ↦ hrest holds
    · refine (he .statement guard none hguard admitsArguments_none).bind fun v _ ↦ ?_
      exact (ensures_truth v).bind fun holds _ ↦ hrest holds

theorem ensures_evalConditional (he : Evaluates strict evaluate) (directive : Bool)
    {branches : List Branch} (hbranches : strict → branchesFit branches = true) :
    Ensures strict .statement (evalConditional evaluate directive branches)
      (Admits strict .operand) := by
  unfold evalConditional
  dsimp only
  split
  · split
    · exact .throw_bind _ _
    · obtain ⟨-, hbody, -⟩ := admits_branch hbranches
      refine (ensures_walk hbody).bind fun _ hss ↦ ?_
      exact (ensures_evalBlock he admitsArguments_none hss).bind fun _ _ ↦ .pure admits_null
  · exact (ensures_evalBranches he hbranches).bind fun _ _ ↦ .pure admits_null

/-! Calls, exits, `With` blocks and files -/

theorem ensures_callBare (he : Evaluates strict evaluate) (name : String) {args : List Value}
    (hargs : ∀ v ∈ args, Admits strict .operand v) :
    Ensures strict .operand (callBare evaluate name args) fun _ ↦ True := by
  refine (Ensures.fetch _).bind fun f hf ↦ (ensures_truth f).bind fun found _ ↦ ?_
  split
  · exact (he .operand f _ hf (admitsArguments_some hargs)).bind fun _ _ ↦ .pure True.intro
  · exact .pure True.intro

/-- A call statement makes no change to its own frame, apart from files. -/
theorem ensures_evalCallStatement (he : Evaluates strict evaluate) (name : Value) {params : Value}
    (hparams : Admits strict .operand params) :
    Ensures strict .operand (evalCallStatement evaluate name params) (Admits strict .operand) := by
  refine holds_evalCallStatement (Ensures.logic strict .operand) (.displayed name)
    (ensures_evalArguments he hparams) (fun _ _ args hargs ↦ ?_)
    (fun shown _ args hargs ↦ ensures_callBare he shown hargs)
    fun _ _ _ args hargs ↦ ensures_runIndirectly he hargs
  rw [← bind_assoc]
  exact (ensures_called he _ (admitsArguments_some hargs)).bind fun _ _ ↦ .pure True.intro

theorem ensures_evalExitLoop : Ensures strict .statement evalExitLoop (Admits strict .operand) := by
  refine Ensures.get.bind fun m _ ↦ ?_
  split
  · exact .throw _
  · refine Ensures.bind (.modifyControl fun fr ↦ ⟨_, fr.withName, fr.exited, rfl⟩) fun _ _ ↦ ?_
    exact .pure admits_null

theorem ensures_evalWith (he : Evaluates strict evaluate) (subject : Value) {body : Value}
    (hbody : Admits strict .statement body) :
    Ensures strict .statement (evalWith evaluate subject body) (Admits strict .operand) := by
  refine (Ensures.displayed subject).bind fun name _ ↦ ?_
  refine Ensures.bind (.modifyControl fun fr ↦ ⟨fr.loops, _, fr.exited, rfl⟩) fun _ _ ↦ ?_
  refine (ensures_walk hbody).bind fun _ hss ↦ ?_
  refine (ensures_evalBlock he admitsArguments_none hss).bind fun _ _ ↦ ?_
  refine Ensures.bind (.modifyControl fun fr ↦ ⟨fr.loops, _, fr.exited, rfl⟩) fun _ _ ↦ ?_
  exact .pure admits_null

theorem ensures_evalOpenFile (he : Evaluates strict evaluate) {fileName : Value} (number : Value)
    (hfileName : Admits strict .operand fileName) :
    Ensures strict .operand (evalOpenFile evaluate fileName number) (Admits strict .operand) := by
  refine (ensures_evalOperand he hfileName).bind fun name hname ↦ ?_
  refine Ensures.bind (.handle (.fetch fileName) fun _ ↦ .pure hname) fun found _ ↦ ?_
  exact (Library.ensures_startFile _ found).bind fun _ _ ↦ .pure admits_null

theorem ensures_evalPrint (he : Evaluates strict evaluate) {number value : Value}
    (hnumber : Admits strict .operand number) (hvalue : Admits strict .operand value) :
    Ensures strict .operand (evalPrint evaluate number value) (Admits strict .operand) := by
  refine (ensures_evalOperand he hnumber).bind fun key _ ↦ ?_
  refine (ensures_evalOperand he hvalue).bind fun data _ ↦ ?_
  exact (Library.ensures_appendToFile key data).bind fun _ _ ↦ .pure admits_null

/-! Procedures -/

theorem ensures_bindArguments (params : Value) {args : Arguments}
    (hargs : AdmitsArguments strict args) :
    Ensures strict .statement (bindArguments params args) fun _ ↦ True := by
  rcases args with _ | _ | ⟨a, as⟩
  · exact .pure True.intro
  · exact .pure True.intro
  · refine Ensures.bind (Q := fun _ ↦ True) ?_ fun ps _ ↦
      holds_bindParameters (Ensures.logic strict .statement)
        (fun _ _ name _ _ hv ↦ .store name hv none fun _ ↦ rfl) (hargs _ rfl)
    refine (Ensures.read_opened params).bind fun _ _ ↦ ?_
    split
    · exact .pure True.intro
    · exact .throw _

theorem ensures_evalStatements (he : Evaluates strict evaluate) (heedsExit : Bool)
    {body : List Value} (hbody : ∀ s ∈ body, Admits strict .statement s) :
    Ensures strict .statement (evalStatements evaluate heedsExit body) fun _ ↦ True := by
  induction body with
  | nil => exact .pure True.intro
  | cons s ss ih =>
    obtain ⟨hs, hss⟩ := List.forall_mem_cons.mp hbody
    refine (Ensures.ensureWritable s).bind fun _ _ ↦ ?_
    refine (he .statement s none hs admitsArguments_none).bind fun _ _ ↦ ?_
    refine Ensures.get.bind fun m _ ↦ ?_
    split
    · exact .pure True.intro
    · exact ih hss

theorem ensures_evalTrailing (he : Evaluates strict evaluate) {trailing : Value}
    (htrailing : Admits strict .statement trailing) :
    Ensures strict .statement (evalTrailing evaluate trailing) fun _ ↦ True := by
  unfold evalTrailing
  split
  · exact .pure True.intro
  · refine (he .statement trailing none htrailing admitsArguments_none).bind fun _ _ ↦ ?_
    exact .pure True.intro

theorem ensures_evalSub (he : Evaluates strict evaluate) (name params : Value)
    {body trailing : Value} (hbody : Admits strict .statement body)
    (htrailing : Admits strict .statement trailing) {args : Arguments}
    (hargs : AdmitsArguments strict args) :
    Ensures strict role (evalSub evaluate name params body trailing args)
      (Admits strict .operand) := by
  refine .inNewFrame ((ensures_bindArguments params hargs).bind fun _ _ ↦ ?_)
  refine (ensures_walk hbody).bind fun _ hss ↦ ?_
  refine (ensures_evalStatements he false hss).bind fun _ _ ↦ ?_
  refine (ensures_evalTrailing he htrailing).bind fun _ _ ↦ ?_
  refine Ensures.bind (Q := fun _ ↦ True)
    (.handle ?_ fun _ ↦ .store name admits_empty none fun _ ↦ rfl) fun _ _ ↦ .pure admits_null
  exact (Ensures.fetch name).bind fun _ _ ↦ .pure True.intro

theorem ensures_evalFunction (he : Evaluates strict evaluate) (name params : Value)
    {body trailing : Value} (hbody : Admits strict .statement body)
    (htrailing : Admits strict .statement trailing) {args : Arguments}
    (hargs : AdmitsArguments strict args) :
    Ensures strict role (evalFunction evaluate name params body trailing args)
      (Admits strict .operand) := by
  refine .inNewFrame ((Ensures.store name admits_null none fun _ ↦ rfl).bind fun _ _ ↦ ?_)
  refine (ensures_bindArguments params hargs).bind fun _ _ ↦ ?_
  refine (ensures_walk hbody).bind fun _ hss ↦ ?_
  refine (ensures_evalStatements he true hss).bind fun _ _ ↦ ?_
  refine (ensures_evalTrailing he htrailing).bind fun _ _ ↦ ?_
  refine Ensures.bind (.modifyControl fun fr ↦ ⟨fr.loops, fr.withName, _, rfl⟩) fun _ _ ↦ ?_
  exact holds_returnValue (Ensures.logic strict .statement) (.fetch name)
    (.store name admits_empty none fun _ ↦ rfl)

theorem ensures_evalExternal (name library exported : Value) (args : Arguments) :
    Ensures strict role (evalExternal name library exported args) (Admits strict .operand) :=
  holds_evalExternal (Ensures.logic strict .statement) (Ensures.logic strict role)
    Ensures.inNewFrame name library exported args

end VbaTrace.Semantics
