import VbaTrace.Proofs.Statements

/-!
Whole evaluations. One step of evaluation respects roles when the evaluation of the parts does
(`ensures_evalNode`, `ensures_evalValue`), so evaluation to any depth does (`evaluates`), by
induction on the depth. From this follows what every evaluation keeps, whatever its outcome: the
global names and procedures, the recorded actions, and, for an operand, the frame in which it is
evaluated.
-/

set_option autoImplicit false

namespace VbaTrace

namespace Semantics

variable {strict : Prop} {role : Role} {evaluate : Evaluator}

theorem ensures_evalNode (he : Evaluates strict evaluate) (rounds : Nat) {n : Node}
    (hn : Admits strict role (.node n)) {args : Arguments} (hargs : AdmitsArguments strict args) :
    Ensures strict role (evalNode evaluate rounds n args) (Admits strict .operand) := by
  have hnode (hrole : strict → role = .statement) : Admits strict .statement (.node n) :=
    fun hs ↦ hrole hs ▸ hn hs
  unfold Admits at hn
  let l := Ensures.logic strict .operand
  cases n <;>
    simp only [Value.fits, Node.fits, Bool.and_eq_true, beq_iff_eq, fitAll_iff] at hn
  case chr => exact (holds_evalChr l (ensures_evalOperand he hn)).of_operand
  case asc => exact (holds_evalAsc l (ensures_evalOperand he hn)).of_operand
  case strReverse => exact (holds_evalStrReverse l (ensures_evalOperand he hn)).of_operand
  case environ => exact (holds_evalEnviron l (ensures_evalOperand he hn)).of_operand
  case simpleName name => exact (ensures_evalName he name).of_operand
  case me => exact .throw _
  case member =>
    exact (ensures_evalMember he (fun hs ↦ (hn hs).1.1) (fun v hv hs ↦ (hn hs).1.2 v hv)
      fun hs ↦ (hn hs).2).of_operand
  case call name _ => exact (ensures_evalCall he name hn).of_operand
  case element =>
    exact (holds_evalElement l (ensures_evalOperand he fun hs ↦ (hn hs).1)
      (ensures_evalOperand he fun hs ↦ (hn hs).2)).of_operand
  case operation op _ =>
    exact (holds_evalOperation l
      (fun v hv ↦ ensures_evalOperand he fun hs ↦ hn hs v hv) op).of_operand
  case comparison lhs _ rhs =>
    have hl : Admits strict .operand lhs := fun hs ↦ (hn hs).1
    have hr : Admits strict .operand rhs := fun hs ↦ (hn hs).2
    exact (holds_evalComparison l (ensures_evalOperand he hl) (ensures_evalOperand he hr) hl
      hr).of_operand
  case condition lhs _ rhs =>
    have hl : Admits strict .operand lhs := fun hs ↦ (hn hs).1
    have hr : Admits strict .operand rhs := fun hs ↦ (hn hs).2
    exact (holds_evalCondition l (ensures_evalOperand he hl) (ensures_evalOperand he hr) hl
      hr).of_operand
  case new => exact .pure hn
  case external name _ library exported _ => exact ensures_evalExternal name library exported args
  case sub name params _ _ =>
    exact ensures_evalSub he name params (fun hs ↦ (hn hs).1) (fun hs ↦ (hn hs).2) hargs
  case function name params _ _ _ =>
    exact ensures_evalFunction he name params (fun hs ↦ (hn hs).1) (fun hs ↦ (hn hs).2) hargs
  case dim _ declared =>
    exact (ensures_evalDim he (fun hs ↦ (hn hs).2) declared).of_assignment fun hs ↦ (hn hs).1
  case assign name _ _ =>
    exact (ensures_evalAssign he name (fun hs ↦ (hn hs).2.1) fun hs ↦ (hn hs).2.2).of_assignment
      fun hs ↦ (hn hs).1
  case forLoop | forEach | whileLoop | doLoop =>
    have hrole : strict → role = .statement := fun hs ↦ (hn hs).1
    exact (ensures_loop he rounds rfl (hnode hrole) args).of_statement hrole
  case select =>
    exact (ensures_evalSelect he hargs (fun hs ↦ (hn hs).2.1)
      fun hs ↦ (hn hs).2.2).of_statement fun hs ↦ (hn hs).1
  case selectClause =>
    exact (he .operand _ args (fun hs ↦ (hn hs).2) hargs).of_operand
  case caseClause _ isRange isSet isElse =>
    exact (ensures_evalCaseClause he args (fun hs ↦ (hn hs).2) isRange isSet isElse).of_operand
  case conditional directive _ =>
    exact (ensures_evalConditional he directive fun hs ↦ (hn hs).2).of_statement fun hs ↦ (hn hs).1
  case callStatement name _ =>
    exact (ensures_evalCallStatement he name fun hs ↦ (hn hs).2).of_operand
  case withBlock subject _ =>
    exact (ensures_evalWith he subject fun hs ↦ (hn hs).2).of_statement fun hs ↦ (hn hs).1
  case openFile _ number _ _ =>
    exact (ensures_evalOpenFile he number fun hs ↦ (hn hs).2).of_operand
  case print =>
    exact (ensures_evalPrint he (fun hs ↦ (hn hs).2.1) fun hs ↦ (hn hs).2.2).of_operand
  case exitFor | exitDo => exact ensures_evalExitLoop.of_statement hn
  case exitProcedure =>
    refine Ensures.of_statement ?_ hn
    refine Ensures.bind (.modifyControl fun fr ↦ ⟨fr.loops, fr.withName, true, rfl⟩) fun _ _ ↦ ?_
    exact .pure admits_null
  all_goals exact .pure admits_null

theorem ensures_evalValue (he : Evaluates strict evaluate) (rounds : Nat) {v : Value}
    (hv : Admits strict role v) {args : Arguments} (hargs : AdmitsArguments strict args) :
    Ensures strict role (evalValue evaluate rounds v args) (Admits strict .operand) := by
  cases v with
  | node n => exact ensures_evalNode he rounds hv hargs
  | routine r => exact (r.ensures_call he hargs).of_operand
  | _ => exact .throw _

theorem evaluates (strict : Prop) (rounds depth : Nat) :
    Evaluates strict (Semantics.evaluate rounds depth) := by
  induction depth with
  | zero => exact fun _ _ _ _ _ ↦ .throw _
  | succ depth ih => exact fun _ _ _ hv hargs ↦ ensures_evalValue ih rounds hv hargs

/-- An evaluation makes the changes of a statement, whatever its tree is like. -/
theorem changes_evaluate (rounds depth : Nat) (v : Value) (args : Arguments) (m : Machine) :
    Changes False .statement m ((Semantics.evaluate rounds depth v args).final m) :=
  Ensures.changes_final
    (evaluates False rounds depth .statement v args (fun h ↦ h.elim) fun _ _ _ _ h ↦ h.elim)
    (.of_not id m)

/-- Evaluation binds no global names but those of constants, and replaces no procedure. -/
theorem evaluate_globals_stable (rounds depth : Nat) (v : Value) (args : Arguments) (m : Machine) :
    m.globals.Stable ((Semantics.evaluate rounds depth v args).final m).globals :=
  (changes_evaluate rounds depth v args m).globals_stable

/-- Evaluation only adds to the recorded actions. -/
theorem evaluate_actions_extended (rounds depth : Nat) (v : Value) (args : Arguments)
    (m : Machine) :
    m.actions.toList <+: ((Semantics.evaluate rounds depth v args).final m).actions.toList :=
  (changes_evaluate rounds depth v args m).actions_extended

end Semantics

/-! The frame of the caller -/

/-- What the evaluation of an operand leaves as it was: the variables of the frame and the flags
that control its statements. Lists are shared with the procedures that are called, which may
lengthen them. -/
structure Machine.KeepsFrame (m m' : Machine) : Prop where
  locals : m'.frame.locals = m.frame.locals
  types : m'.frame.types = m.frame.types
  loops : m'.frame.loops = m.frame.loops
  withName : m'.frame.withName = m.frame.withName
  exited : m'.frame.exited = m.frame.exited
  lists : m.heap.Grows m'.heap
  settings : m.SameSettings m'

theorem Changes.keepsFrame {m m' : Machine} (h : Changes True .operand m m') :
    m.KeepsFrame m' := by
  obtain ⟨opened, closed, heq⟩ := h.frame_eq True.intro rfl
  exact ⟨by rw [heq], by rw [heq], by rw [heq], by rw [heq], by rw [heq], h.heap_grows,
    h.same_settings⟩

/-- The local variables as they are seen, with what their lists hold. -/
def Machine.shownLocals (m : Machine) : List (String × Value) :=
  m.frame.locals.entries.map fun e ↦ (e.1, m.heap.resolve e.2)

namespace Semantics

/-- An operand, evaluated as a node or as an argument, keeps the frame whether it gives a value or
fails, and no variable comes to hold a statement by it. -/
theorem evaluate_operand_keepsFrame (rounds depth : Nat) {v : Value}
    (hv : v.fits .operand = true) {args : Arguments} (hargs : AdmitsArguments True args)
    {m : Machine} (hm : m.Admitted True) :
    m.KeepsFrame ((Semantics.evaluate rounds depth v args).final m) ∧
      m.KeepsFrame ((evalOperand (Semantics.evaluate rounds depth) v).final m) ∧
      ((Semantics.evaluate rounds depth v args).final m).Admitted True ∧
      ∀ w m', Semantics.evaluate rounds depth v args m = .ok w m' → w.fits .operand = true := by
  have hevaluates := evaluates True rounds depth
  have hensures := hevaluates .operand v args (fun _ ↦ hv) hargs
  have hchanges := hensures.changes_final hm
  refine ⟨hchanges.keepsFrame, ?_, hchanges.admitted hm, fun w m' heq ↦ ?_⟩
  · exact ((ensures_evalOperand hevaluates fun _ ↦ hv).changes_final hm).keepsFrame
  · have hmeets := hensures m hm
    rw [heq] at hmeets
    exact hmeets.2 True.intro

/-- A function that assigns beyond the end of the list it is given. -/
def growing : Node :=
  .function (.text "grow") (.list [.node (.parameter (.text "a") .empty)])
    (.list [.node (.assign (.text "a") (.int 3) (.int 7))]) .empty .null

/-- A machine with this function, and with a local variable that holds a list. -/
def holdingList : Machine :=
  { globals := { others := ⟨[("grow", .node growing)]⟩ }
    heap := (Heap.alloc {} [.int 1, .int 2]).2
    frame := { locals := ⟨[("x", .array 0)]⟩ } }

def growCall : Value :=
  .node (.call "grow" (.list [.node (.simpleName "x")]))

theorem holdingList_admitted : holdingList.Admitted True :=
  .of_tables (.of_entries (by decide)) (.of_entries (by decide)) (.of_entries (by decide))
    (Heap.stocked_empty.alloc (by simp)) rfl rfl

theorem evaluate_growCall_keepsFrame :
    growCall.fits .operand = true ∧ AdmitsArguments True none ∧ holdingList.Admitted True ∧
      holdingList.KeepsFrame ((Semantics.run growCall none).final holdingList) :=
  ⟨by decide, admitsArguments_none, holdingList_admitted,
    (evaluate_operand_keepsFrame roundLimit depthLimit (by decide) admitsArguments_none
      holdingList_admitted).1⟩

/-- What a local variable shows can change all the same: a called function lengthens the list that
it shares with the caller. -/
theorem operand_changes_shownLocals : ¬ ∀ (v : Value) (m : Machine), v.fits .operand = true →
    m.Admitted True → ((Semantics.run v none).final m).shownLocals = m.shownLocals := by
  intro h
  have hsame := h growCall holdingList (by decide) holdingList_admitted
  have hlengths := congrArg (List.map fun e ↦ e.2.length?) hsame
  revert hlengths
  decide +kernel

end Semantics

end VbaTrace
