import Mathlib.Logic.Relation
import VbaTrace.Proofs.Pending

/-!
What statements do to the flow of their frame: to the flags of its loops, to the name of its `With`
blocks, and to the flag that its procedure was left. `Leads` is a logic for it, which speaks of both
ends of an evaluation. Operands and assignments leave the flow alone (`Stays`).

A `Discipline` tells for statements of a kind how they may change the flow if they end normally, and
if they fail. It only has to say so of pushing and popping a loop, of entering and leaving a block,
of exits, and of loops that hide failures. Then it holds for all statements of the kind (`rules`),
and on the way to a statement inside of others (`Reaches.obeyed`).
-/

set_option autoImplicit false

namespace VbaTrace

/-! The flow of a frame -/

/-- The flags of the running loops, and the name of the enclosing `With` blocks. -/
structure Control where
  loops : List Bool
  withName : String

def Frame.control (fr : Frame) : Control :=
  ⟨fr.loops, fr.withName⟩

/-- The flags with that of the innermost loop down. -/
def lowerFirst : List Bool → List Bool
  | [] => []
  | _ :: outer => false :: outer

theorem lowerFirst_lowerFirst (loops : List Bool) :
    lowerFirst (lowerFirst loops) = lowerFirst loops := by
  cases loops <;> rfl

namespace Control

/-- The innermost loop has been left. -/
def lowered (c : Control) : Control :=
  ⟨lowerFirst c.loops, c.withName⟩

/-- Inside a loop with a given flag. -/
def inLoop (c : Control) (flag : Bool) : Control :=
  ⟨flag :: c.loops, c.withName⟩

/-- Without the innermost loop. -/
def popped (c : Control) : Control :=
  ⟨c.loops.tail, c.withName⟩

/-- Inside a `With` block its name is added. -/
def inBlock (c : Control) (name : String) : Control :=
  ⟨c.loops, Semantics.enterWith c.withName name⟩

/-- Without the innermost `With` block. -/
def closed (c : Control) : Control :=
  ⟨c.loops, Semantics.leaveWith c.withName⟩

end Control

/-- The control of a frame, and whether its procedure was left. -/
structure Flow where
  control : Control
  exited : Bool

def Frame.flow (fr : Frame) : Flow :=
  ⟨fr.control, fr.exited⟩

namespace Flow

/-- The same procedure with other loops and blocks. -/
def under (f : Flow) (c : Control) : Flow :=
  ⟨c, f.exited⟩

def inLoop (f : Flow) : Flow :=
  f.under (f.control.inLoop true)

def inBlock (f : Flow) (name : String) : Flow :=
  f.under (f.control.inBlock name)

def left (f : Flow) : Flow :=
  ⟨f.control, true⟩

end Flow

theorem Changes.flow_eq {role : Role} {m m' : Machine} (h : Changes True role m m')
    (hrole : role ≠ .statement) : m'.frame.flow = m.frame.flow := by
  obtain ⟨hloops, hname⟩ := h.control_eq True.intro hrole
  have hexited : m'.frame.exited = m.frame.exited := by
    clear hloops hname
    induction h with
    | trans _ _ ihfirst ihlast => exact (ihlast hrole).trans (ihfirst hrole)
    | assign _ m name v type =>
      obtain ⟨_, _, hframe⟩ := m.assign_frame name v type
      rw [hframe]
    | control _ _ _ _ _ h => exact absurd (h True.intro) hrole
    | refl | report | files | drop | activation | share | lengthen => rfl
  rw [Frame.flow, Frame.control, hloops, hname, hexited]
  rfl

/-! A logic for both ends of an evaluation -/

/-- An end in a machine whose variables hold operands, with `Q` if it is normal and `E` if it is a
failure. -/
inductive Led {α : Type} (Q : α → Flow → Prop) (E : Flow → Prop) :
    EStateM.Result Fault Machine α → Prop
  | ok {a : α} {m : Machine} : m.Admitted True → Q a m.frame.flow → Led Q E (.ok a m)
  | error {e : Fault} {m : Machine} : m.Admitted True → E m.frame.flow → Led Q E (.error e m)

/-- The evaluation leads from the flow `f` to `Q` if it ends normally, and to `E` if it fails. -/
def Leads (f : Flow) {α : Type} (x : Eval α) (Q : α → Flow → Prop) (E : Flow → Prop) : Prop :=
  ∀ m : Machine, m.Admitted True → m.frame.flow = f → Led Q E (x m)

/-- The evaluation leaves the flow as it is, in any case. -/
def Stays {α : Type} (x : Eval α) (R : α → Prop) : Prop :=
  ∀ f, Leads f x (fun a g ↦ g = f ∧ R a) (· = f)

section

variable {f : Flow} {α β : Type} {x : Eval α} {k : α → Eval β} {Q : α → Flow → Prop}
  {S : β → Flow → Prop} {E : Flow → Prop} {R : α → Prop} {m m' : Machine}

namespace Leads

theorem ok (hx : Leads f x Q E) (hm : m.Admitted True) (hf : m.frame.flow = f) {a : α}
    (heq : x m = .ok a m') : m'.Admitted True ∧ Q a m'.frame.flow := by
  have hled := hx m hm hf
  rw [heq] at hled
  cases hled with
  | ok hm' ha => exact ⟨hm', ha⟩

theorem error (hx : Leads f x Q E) (hm : m.Admitted True) (hf : m.frame.flow = f) {e : Fault}
    (heq : x m = .error e m') : m'.Admitted True ∧ E m'.frame.flow := by
  have hled := hx m hm hf
  rw [heq] at hled
  cases hled with
  | error hm' he => exact ⟨hm', he⟩

theorem pure {a : α} (h : Q a f) : Leads f (Pure.pure a) Q E := by
  rintro m hm rfl
  exact .ok hm h

theorem throw (e : Fault) (h : E f) : Leads f (MonadExcept.throw e) Q E := by
  rintro m hm rfl
  exact .error hm h

theorem bind (hx : Leads f x Q E) (hk : ∀ a g, Q a g → Leads g (k a) S E) :
    Leads f (x >>= k) S E := by
  intro m hm hf
  cases hxm : x m with
  | ok a m₁ =>
    obtain ⟨hm₁, ha⟩ := hx.ok hm hf hxm
    rw [Eval.bind_of_ok hxm]
    exact hk a _ ha m₁ hm₁ rfl
  | error e m₁ =>
    obtain ⟨hm₁, he⟩ := hx.error hm hf hxm
    rw [Eval.bind_of_error hxm]
    exact .error hm₁ he

theorem mono {Q' : α → Flow → Prop} {E' : Flow → Prop} (hx : Leads f x Q E)
    (hQ : ∀ a g, Q a g → Q' a g) (hE : ∀ g, E g → E' g) : Leads f x Q' E' := by
  intro m hm hf
  have hled := hx m hm hf
  generalize x m = r at hled ⊢
  cases hled with
  | ok hm' ha => exact .ok hm' (hQ _ _ ha)
  | error hm' he => exact .error hm' (hE _ he)

theorem handle {F : Flow → Prop} {caught : Fault → Bool} {handler : Fault → Eval α}
    (hx : Leads f x Q E) (hh : ∀ e g, E g → Leads g (handler e) Q F)
    (hE : ∀ e g, caught e = false → E g → F g) : Leads f (Eval.handle x caught handler) Q F := by
  intro m hm hf
  cases hxm : x m with
  | ok a m₁ =>
    obtain ⟨hm₁, ha⟩ := hx.ok hm hf hxm
    rw [Eval.handle_of_ok hxm]
    exact .ok hm₁ ha
  | error e m₁ =>
    obtain ⟨hm₁, he⟩ := hx.error hm hf hxm
    rw [Eval.handle_of_error hxm]
    split_ifs with hcaught
    · exact hh e _ he m₁ hm₁ rfl
    · exact .error hm₁ (hE e _ (Bool.eq_false_of_not_eq_true hcaught) he)

/-- A failure that is hidden is a normal end like the others. -/
theorem hide {x : Eval Unit} {Q : Unit → Flow → Prop} {F : Flow → Prop} (hx : Leads f x Q E)
    (h : ∀ g, E g → Q () g) :
    Leads f (Eval.handle x Eval.anyFault fun _ ↦ return ()) Q F :=
  hx.handle (fun _ g hg ↦ .pure (h g hg)) fun _ _ hnot ↦ nomatch hnot

theorem modifyFrame {φ : Frame → Frame} {Q : Unit → Flow → Prop}
    (h : ∀ fr : Frame, fr.flow = f → Q () (φ fr).flow) (hlocals : ∀ fr, (φ fr).locals = fr.locals) :
    Leads f (modifyFrame φ) Q E := fun m hm hf ↦
  .ok ⟨hlocals m.frame ▸ hm.locals, hm.globals, hm.heap, hm.properties, hm.itemProperties⟩
    (h m.frame hf)

end Leads

namespace Stays

theorem pure {a : α} (h : R a) : Stays (Pure.pure a) R :=
  fun _ ↦ .pure ⟨rfl, h⟩

theorem leads (hx : Stays x R) (hE : E f) (hk : ∀ a, R a → Leads f (k a) S E) :
    Leads f (x >>= k) S E := by
  refine Leads.bind ((hx f).mono (fun _ _ h ↦ h) fun _ h ↦ h ▸ hE) fun a g h ↦ ?_
  rw [h.1]
  exact hk a h.2

theorem bind (hx : Stays x R) {T : β → Prop} (hk : ∀ a, R a → Stays (k a) T) :
    Stays (x >>= k) T :=
  fun f ↦ hx.leads rfl fun a ha ↦ hk a ha f

/-- Operands and assignments have nothing to do with the flow. -/
theorem of_ensures {role : Role} (hx : Ensures True role x R) (hrole : role ≠ .statement) :
    Stays x R := by
  rintro f m hm rfl
  have hmeets := hx m hm
  cases hxm : x m with
  | ok a m' =>
    rw [hxm] at hmeets
    exact .ok (hmeets.1.admitted hm) ⟨hmeets.1.flow_eq hrole, hmeets.2⟩
  | error e m' =>
    rw [hxm] at hmeets
    exact .error (Changes.admitted hmeets hm) (Changes.flow_eq hmeets hrole)

theorem of_operand (hx : Ensures True .operand x R) : Stays x R :=
  of_ensures hx nofun

theorem of_assignment (hx : Ensures True .assignment x R) : Stays x R :=
  of_ensures hx nofun

def logic : EvalLogic (Admits True .operand) where
  Holds := Stays
  pure := pure
  throw e _ := .throw e rfl
  bind hx hk := hx.bind hk
  handle hx hh f := (hx f).handle (fun e _ hg ↦ hg ▸ hh e f) fun _ _ _ h ↦ h
  get h _ f m hm := h m ⟨hm.heap, hm.properties, hm.itemProperties⟩ f m hm
  record ha := of_operand (.modify fun m _ ↦ .report .operand m _ ha)

theorem fetch (name : Value) : Stays (fetch name) (Admits True .operand) :=
  of_operand (.fetch name)

theorem store (name : Value) (v : Value) (hv : Admits True .operand v) :
    Stays (store name v none) fun _ ↦ True :=
  of_assignment (.store name hv none fun _ ↦ rfl)

end Stays

end

/-! Disciplines -/

/-- A part of a tree with statements that are evaluated in the same frame. -/
inductive Value.PartOf : Value → Value → Prop
  | item {v : Value} {vs : List Value} : v ∈ vs → PartOf v (.list vs)
  | token {v : Value} {vs : List Value} {labels : List Label} : v ∈ vs →
      PartOf v (.tokens (.mk vs labels))
  | forLoop {name start stop step body : Value} :
      PartOf body (.node (.forLoop name start stop step body))
  | forEach {item container body : Value} : PartOf body (.node (.forEach item container body))
  | whileLoop {kind guard body : Value} : PartOf body (.node (.whileLoop kind guard body))
  | doLoop {kind guard body : Value} : PartOf body (.node (.doLoop kind guard body))
  | withBlock {subject body : Value} : PartOf body (.node (.withBlock subject body))
  | subject {subject cases : Value} : PartOf subject (.node (.select subject cases))
  | cases {subject cases : Value} : PartOf cases (.node (.select subject cases))
  | caseGuard {guard body : Value} : PartOf guard (.node (.selectCase guard body))
  | caseBody {guard body : Value} : PartOf body (.node (.selectCase guard body))
  | guard {directive : Bool} {bs : List Branch} {guard body : Value} : .mk guard body ∈ bs →
      PartOf guard (.node (.conditional directive bs))
  | body {directive : Bool} {bs : List Branch} {guard body : Value} : .mk guard body ∈ bs →
      PartOf body (.node (.conditional directive bs))

theorem Value.PartOf.fits {v w : Value} (h : w.PartOf v) (hv : v.fits .statement = true) :
    w.fits .statement = true := by
  have hbranch {bs : List Branch} (hbs : branchesFit bs = true) {guard body : Value}
      (hb : .mk guard body ∈ bs) : guard.fits .statement = true ∧ body.fits .statement = true := by
    induction bs with
    | nil => exact nomatch hb
    | cons b bs ih =>
      rw [branchesFit, Bool.and_eq_true] at hbs
      rcases List.mem_cons.mp hb with rfl | hb
      · simpa [Branch.fits] using hbs.1
      · exact ih hbs.2 hb
  cases h with
  | item hw | token hw => exact (fitAll_iff _ _).mp hv w hw
  | guard hb => exact (hbranch (by simpa [Value.fits, Node.fits] using hv) hb).1
  | body hb => exact (hbranch (by simpa [Value.fits, Node.fits] using hv) hb).2
  | _ => simp_all [Value.fits, Node.fits]

theorem Value.PartOf.operand {v w : Value} (h : w.PartOf v) (hv : v.fits .operand = true) :
    w.fits .operand = true := by
  cases h with
  | item hw | token hw => exact (fitAll_iff _ _).mp hv w hw
  | _ => exact Bool.noConfusion hv

/-- However the lists in it are filled, the value may be displayed so. -/
def Value.Shows (v : Value) (s : String) : Prop :=
  ∃ h : Heap, (h.resolve v).written = .ok s

/-- How statements may change the flow, of which only some are allowed: to what they lead if they
end normally, and loops among them, and if they fail. -/
structure Discipline where
  Allows : Node → Prop
  Ends : Flow → Flow → Prop
  Restores : Flow → Flow → Prop
  Fails : Flow → Flow → Prop
  allows {n : Node} : n.fits .operand = true → Allows n
  refl (f : Flow) : Ends f f
  trans {f g h : Flow} : Ends f g → Ends g h → Ends f h
  fails_refl (f : Flow) : Fails f f
  trans_fails {f g h : Flow} : Ends f g → Fails g h → Fails f h
  lower (f : Flow) : Ends f (f.under f.control.lowered)
  leave (f : Flow) : Ends f f.left
  restores {f g : Flow} : Restores f g → Ends f g
  pop {f g : Flow} : Ends f.inLoop g → Restores f (g.under g.control.popped)
  in_loop {f g : Flow} : Fails f.inLoop g → Fails f g
  hides {n : Node} {f g : Flow} : Allows n → n.isEach = true → Fails f.inLoop g → Ends f.inLoop g
  close {subject body : Value} {name : String} {f g : Flow} : Allows (.withBlock subject body) →
    subject.Shows name → Ends (f.inBlock name) g → Ends f (g.under g.control.closed)
  in_block {subject body : Value} {name : String} {f g : Flow} : Allows (.withBlock subject body) →
    subject.Shows name → Fails (f.inBlock name) g → Fails f g

namespace Discipline

/-- A tree of allowed statements that keeps operands and statements apart. -/
structure Obeys (D : Discipline) (v : Value) : Prop where
  fits : v.fits .statement = true
  allows : ∀ n, Relation.ReflTransGen Value.PartOf (.node n) v → D.Allows n

def Keeps (D : Discipline) {α : Type} (x : Eval α) (R : α → Prop) : Prop :=
  ∀ f, Leads f x (fun a g ↦ D.Ends f g ∧ R a) (D.Fails f)

variable {D : Discipline}

theorem Obeys.of_kind {K : Value → Prop} (hpart : ∀ {v w : Value}, K v → w.PartOf v → K w)
    (hnode : ∀ n, K (.node n) → D.Allows n) {v : Value} (hfits : v.fits .statement = true)
    (hv : K v) : D.Obeys v := by
  have hall {w : Value} (hw : Relation.ReflTransGen Value.PartOf w v) : K w := by
    induction hw using Relation.ReflTransGen.head_induction_on with
    | refl => exact hv
    | head hw _ ih => exact hpart ih hw
  exact ⟨hfits, fun n hn ↦ hnode n (hall hn)⟩

theorem Obeys.of_operand {v : Value} (h : v.fits .operand = true) : D.Obeys v :=
  .of_kind (K := fun v ↦ v.fits .operand = true) (fun hv h ↦ h.operand hv) (fun _ ↦ D.allows)
    (Value.fits_mono rfl h) h

theorem Obeys.part {v w : Value} (hv : D.Obeys v) (h : w.PartOf v) : D.Obeys w :=
  ⟨h.fits hv.fits, fun n hn ↦ hv.allows n (hn.tail h)⟩

theorem Obeys.node {n : Node} (hn : D.Obeys (.node n)) : D.Allows n :=
  hn.allows n .refl

/-- A walk over a body meets statements that obey. -/
theorem Obeys.walk {v : Value} (hv : D.Obeys v) :
    Stays (Semantics.walk v) fun vs ↦ ∀ w ∈ vs, D.Obeys w := by
  rintro f m hm rfl
  have hparts (vs : List Value) (hvs : (m.heap.opened v).walk? = some vs) : ∀ w ∈ vs, D.Obeys w := by
    cases v with
    | array cell =>
      rw [← Option.some.inj hvs]
      exact fun w hw ↦ .of_operand (hm.heap cell w hw True.intro)
    | text s =>
      rw [← Option.some.inj hvs, List.forall_mem_map]
      exact fun _ _ ↦ .of_operand rfl
    | list ws =>
      rw [← Option.some.inj hvs]
      exact fun w hw ↦ hv.part (.item hw)
    | tokens t =>
      rw [← Option.some.inj hvs]
      obtain ⟨items, labels⟩ := t
      exact fun w hw ↦ hv.part (.token hw)
    | _ => exact nomatch hvs
  rw [Semantics.walk_eq]
  cases hwalk : (m.heap.opened v).walk? with
  | some vs => exact .ok hm ⟨rfl, hparts vs hwalk⟩
  | none => exact .error hm rfl

namespace Keeps

variable {α β : Type} {x : Eval α} {R : α → Prop}

theorem of_stays (hx : Stays x R) : D.Keeps x R :=
  fun f ↦ (hx f).mono (fun _ _ h ↦ ⟨h.1 ▸ D.refl f, h.2⟩) fun _ h ↦ h ▸ D.fails_refl f

theorem of_operand (hx : Ensures True .operand x R) : D.Keeps x R :=
  of_stays (.of_operand hx)

theorem pure {a : α} (h : R a) : D.Keeps (Pure.pure a) R :=
  of_stays (.pure h)

theorem throw (e : Fault) : D.Keeps (MonadExcept.throw e) R :=
  fun f ↦ .throw e (D.fails_refl f)

/-- From where something has led. -/
theorem leads (hx : D.Keeps x R) {f g : Flow} (h : D.Ends f g) :
    Leads g x (fun a g' ↦ D.Ends f g' ∧ R a) (D.Fails f) :=
  (hx g).mono (fun _ _ h' ↦ ⟨D.trans h h'.1, h'.2⟩) fun _ h' ↦ D.trans_fails h h'

theorem bind {k : α → Eval β} {S : β → Prop} (hx : D.Keeps x R)
    (hk : ∀ a, R a → D.Keeps (k a) S) : D.Keeps (x >>= k) S :=
  fun f ↦ (hx f).bind fun a _ h ↦ (hk a h.2).leads h.1

end Keeps

/-- An evaluator under which what obeys the discipline keeps it. -/
def Rules (D : Discipline) (evaluate : Evaluator) : Prop :=
  ∀ v args, D.Obeys v → AdmitsArguments True args → D.Keeps (evaluate v args) (Admits True .operand)

end Discipline

/-! Statements -/

namespace Semantics

open Discipline

variable {D : Discipline} {evaluate : Evaluator} {f g : Flow}

theorem keeps_evalBlock (hr : D.Rules evaluate) {args : Arguments}
    (hargs : AdmitsArguments True args) {body : List Value} (hbody : ∀ s ∈ body, D.Obeys s) :
    D.Keeps (evalBlock evaluate args body) fun _ ↦ True := by
  induction body with
  | nil => exact .pure True.intro
  | cons s ss ih =>
    obtain ⟨hs, hss⟩ := List.forall_mem_cons.mp hbody
    exact (hr s args hs hargs).bind fun _ _ ↦ ih hss

theorem keeps_evalBody (hr : D.Rules evaluate) {body : List Value}
    (hbody : ∀ s ∈ body, D.Obeys s) : D.Keeps (evalBody evaluate body) fun _ ↦ True := by
  induction body with
  | nil => exact .pure True.intro
  | cons s ss ih =>
    obtain ⟨hs, hss⟩ := List.forall_mem_cons.mp hbody
    refine (Keeps.of_operand (.ensureWritable s)).bind fun _ _ ↦ ?_
    refine (hr s none hs admitsArguments_none).bind fun _ _ ↦ ?_
    refine (Keeps.of_operand ensures_loopRuns).bind fun runs _ ↦ ?_
    split
    · exact ih hss
    · exact .pure True.intro

/-! Loops -/

/-- A plan that leaves the flow alone and names statements that obey. -/
def LoopPlan.Obeys (D : Discipline) (p : LoopPlan) : Prop :=
  p.Lists Stays.logic D.Obeys

theorem keeps_after {p : LoopPlan} (hp : p.Obeys D) (rounds place : Nat)
    (hrun : D.Keeps (p.run evaluate rounds place) fun _ ↦ True) (done : Bool) :
    D.Keeps (p.after evaluate rounds place done) fun _ ↦ True := by
  unfold LoopPlan.after
  split
  · exact .pure True.intro
  · refine (Keeps.of_stays hp.goesOn).bind fun more _ ↦ ?_
    split
    · exact hrun
    · exact .pure True.intro

theorem keeps_run (hr : D.Rules evaluate) {p : LoopPlan} (hp : p.Obeys D) (rounds place : Nat) :
    D.Keeps (p.run evaluate rounds place) fun _ ↦ True := by
  induction rounds generalizing place with
  | zero => exact .throw _
  | succ rounds ih =>
    rw [LoopPlan.run_succ]
    refine (Keeps.of_stays (hp.next place)).bind fun found hfound ↦ ?_
    split
    · exact .pure True.intro
    · next body =>
      exact (keeps_evalBody hr (hfound body rfl)).bind fun left _ ↦
        keeps_after hp rounds (place + 1) (ih (place + 1)) left

/-- A failure that a loop over items hides leaves open what it interrupts. -/
theorem leads_shielded {n : Node} (hn : D.Allows n) {x : Eval Unit}
    (hx : D.Keeps x fun _ ↦ True) :
    Leads f.inLoop (shielded n x)
      (fun _ g ↦ D.Ends f.inLoop g) (D.Fails f) := by
  have hends := (hx f.inLoop).mono (fun _ _ h ↦ h.1) fun _ h ↦ D.in_loop h
  unfold shielded
  split
  · exact .hide ((hx _).mono (fun _ _ h ↦ h.1) fun _ h ↦ h) fun g h ↦ D.hides hn rfl h
  · exact hends

theorem leads_pushLoop {E : Flow → Prop} :
    Leads f pushLoop (fun _ g ↦ g = f.inLoop) E := by
  refine .modifyFrame ?_ fun _ ↦ rfl
  rintro fr rfl
  rfl

theorem leads_flagging {α : Type} (k : Bool → List Bool → α × List Bool) :
    Leads f (flagging k) (fun a g ↦ ∃ runs outer, f.control.loops = runs :: outer ∧
      a = (k runs outer).1 ∧ g = f.under ⟨(k runs outer).2, f.control.withName⟩) (· = f) := by
  rintro m hm rfl
  unfold flagging
  cases hloops : m.frame.loops with
  | nil => exact .error hm rfl
  | cons runs outer =>
    exact .ok ⟨hm.locals, hm.globals, hm.heap, hm.properties, hm.itemProperties⟩
      ⟨runs, outer, hloops, rfl, rfl⟩

theorem leads_popLoop (h : D.Ends f.inLoop g) :
    Leads g popLoop (fun _ ↦ D.Restores f) (D.Fails f) := by
  rw [popLoop_eq]
  refine (leads_flagging _).mono (fun _ g' hg ↦ ?_) fun g' hg ↦ ?_
  · obtain ⟨runs, outer, hloops, -, rfl⟩ := hg
    have hpop := D.pop h
    rwa [Control.popped, hloops] at hpop
  · exact D.in_loop (D.trans_fails h (hg ▸ D.fails_refl g))

/-- To enter a loop pushes one flag, which is left there if what follows fails. -/
def Enters (D : Discipline) (x : Eval LoopPlan) : Prop :=
  ∀ f, Leads f x (fun p g ↦ g = f.inLoop ∧ p.Obeys D) fun g ↦ g = f ∨ g = f.inLoop

theorem enters_counting (he : Evaluates True evaluate) (name : Value)
    {start stop step body : Value} (hstart : Admits True .operand start)
    (hstop : Admits True .operand stop) (hstep : Admits True .operand step) (hbody : D.Obeys body) :
    Enters D (enterCounting evaluate name start stop step body) := by
  intro f
  refine (Stays.of_operand (ensures_evalOperand he hstart)).leads (.inl rfl) fun first hfirst ↦ ?_
  refine (Stays.of_operand (.ensureWritable first)).leads (.inl rfl) fun _ _ ↦ ?_
  refine (Stays.of_operand (ensures_evalOperand he hstop)).leads (.inl rfl) fun last _ ↦ ?_
  extract_lets enters
  have henters : Leads f (enters ()) (fun p g ↦ g = f.inLoop ∧ p.Obeys D)
      fun g ↦ g = f ∨ g = f.inLoop := by
    refine (Stays.of_operand .get).leads (.inl rfl) fun m _ ↦ ?_
    refine (Stays.of_operand (ensures_loopStep he hstep)).leads (.inl rfl) fun step hstep ↦ ?_
    refine leads_pushLoop.bind fun _ g hg ↦ ?_
    refine (Stays.store name first hfirst).leads (.inr hg) fun _ _ ↦ ?_
    exact .pure ⟨hg, lists_countingPlan Stays.logic hbody.walk (Stays.fetch name)
      (Stays.store name) hstep _⟩
  split
  · exact (Stays.of_operand (.ensureWritable last)).leads (.inl rfl) fun _ _ ↦ henters
  · exact henters

theorem enters_items (he : Evaluates True evaluate) (item : Value) {container body : Value}
    (hcontainer : Admits True .operand container) (hbody : D.Obeys body) :
    Enters D (enterItems evaluate item container body) := by
  refine fun f ↦ leads_pushLoop.bind fun _ g hg ↦ ?_
  refine (Stays.of_operand (ensures_evalOperand he hcontainer)).leads (.inr hg)
    fun value hvalue ↦ ?_
  refine (Stays.of_operand (.handle (.fetch container) fun _ ↦ .pure hvalue)).leads (.inr hg)
    fun found hfound ↦ ?_
  exact .pure ⟨hg, lists_itemPlan Stays.logic hbody.walk (Stays.fetch item) (Stays.store item)
    (Stays.of_operand (ensures_walk hfound))⟩

theorem enters_loop (he : Evaluates True evaluate) {n : Node} (hn : D.Obeys (.node n)) :
    Enters D (enterLoop evaluate n) := by
  have hfits := hn.fits
  cases n with
  | forLoop name start stop step body =>
    simp only [Value.fits, Node.fits, Bool.and_eq_true] at hfits
    exact enters_counting he name (fun _ ↦ hfits.2.1.1.1) (fun _ ↦ hfits.2.1.1.2)
      (fun _ ↦ hfits.2.1.2) (hn.part .forLoop)
  | forEach item container body =>
    simp only [Value.fits, Node.fits, Bool.and_eq_true] at hfits
    exact enters_items he item (fun _ ↦ hfits.2.1) (hn.part .forEach)
  | whileLoop kind guard body =>
    simp only [Value.fits, Node.fits, Bool.and_eq_true] at hfits
    refine fun f ↦ leads_pushLoop.bind fun _ g hg ↦ ?_
    exact .pure ⟨hg, lists_whilePlan Stays.logic (hn.part .whileLoop).walk
      (Stays.of_operand (ensures_evalOperand he fun _ ↦ hfits.2.1)) kind⟩
  | doLoop kind guard body =>
    simp only [Value.fits, Node.fits, Bool.and_eq_true] at hfits
    refine fun f ↦ leads_pushLoop.bind fun _ g hg ↦ ?_
    refine (hn.part .doLoop).walk.leads (.inr hg) fun ss hss ↦ ?_
    exact .pure ⟨hg, lists_doPlan Stays.logic hss
      (Stays.of_operand (ensures_evalOperand he fun _ ↦ hfits.2.1)) kind⟩
  | _ => exact fun f ↦ .throw _ (.inl rfl)

/-- A loop restores the flow that it found, as far as the discipline asks for it. -/
theorem leads_loop (he : Evaluates True evaluate) (hr : D.Rules evaluate) (rounds : Nat)
    {n : Node} (hloop : n.repeats = true) (hn : D.Obeys (.node n)) (args : Arguments) :
    Leads f (evalNode evaluate rounds n args)
      (fun v g ↦ D.Restores f g ∧ Admits True .operand v) (D.Fails f) := by
  rw [evalNode_loop evaluate rounds hloop]
  have henter := (enters_loop he hn f).mono (fun _ _ h ↦ h) fun g hg ↦
    show D.Fails f g by
      rcases hg with rfl | rfl
      · exact D.fails_refl _
      · exact D.in_loop (D.fails_refl _)
  refine henter.bind fun plan _ h ↦ ?_
  obtain ⟨rfl, hplan⟩ := h
  refine (leads_shielded hn.node (keeps_run hr hplan rounds 0)).bind fun _ g hg ↦ ?_
  exact (leads_popLoop hg).bind fun _ g' hg' ↦ .pure ⟨hg', admits_null⟩

/-! Blocks -/

theorem keeps_takenCase (hr : D.Rules evaluate) {v : Value} (hv : Admits True .operand v)
    {cases : List Value} (hcases : ∀ k ∈ cases, D.Obeys k) :
    D.Keeps (takenCase evaluate v cases) fun ss ↦ ∀ s ∈ ss, D.Obeys s := by
  induction cases with
  | nil => exact .pure nofun
  | cons k ks ih =>
    obtain ⟨hk, hks⟩ := List.forall_mem_cons.mp hcases
    have hparts : Ensures True .operand (Eval.ofExcept (caseParts k))
        fun parts ↦ D.Obeys parts.1 ∧ D.Obeys parts.2 := by
      refine .ofExcept fun parts hparts ↦ ?_
      unfold caseParts at hparts
      split at hparts
      · rw [← Except.ok.inj hparts]
        exact ⟨hk.part .caseGuard, hk.part .caseBody⟩
      · exact nomatch hparts
    have hsubject : AdmitsArguments True (some [v]) :=
      admitsArguments_some (List.forall_mem_singleton.mpr hv)
    refine (Keeps.of_operand hparts).bind fun parts hparts ↦ ?_
    refine (Keeps.of_operand (.ensureWritable v)).bind fun _ _ ↦ ?_
    refine (hr parts.1 _ hparts.1 hsubject).bind fun accepts _ ↦ ?_
    refine (Keeps.of_operand (ensures_truth accepts)).bind fun holds _ ↦ ?_
    split
    · exact .of_stays hparts.2.walk
    · exact ih hks

theorem keeps_takenBranch (hr : D.Rules evaluate) {branches : List Branch}
    (h : ∀ guard body, .mk guard body ∈ branches → D.Obeys guard ∧ D.Obeys body) :
    D.Keeps (takenBranch evaluate branches) fun ss ↦ ∀ s ∈ ss, D.Obeys s := by
  induction branches with
  | nil => exact .pure nofun
  | cons b bs ih =>
    obtain ⟨guard, body⟩ := b
    obtain ⟨hguard, hbody⟩ := h guard body List.mem_cons_self
    have hrest (holds : Bool) : D.Keeps (if holds then walk body else takenBranch evaluate bs)
        fun ss ↦ ∀ s ∈ ss, D.Obeys s := by
      cases holds with
      | true => exact .of_stays hbody.walk
      | false => exact ih fun guard body hb ↦ h guard body (List.mem_cons_of_mem _ hb)
    unfold takenBranch
    dsimp only
    split
    · exact Keeps.bind (R := fun _ ↦ True) (.pure True.intro) fun holds _ ↦ hrest holds
    · refine (hr guard none hguard admitsArguments_none).bind fun v _ ↦ ?_
      exact (Keeps.of_operand (ensures_truth v)).bind fun holds _ ↦ hrest holds

/-- To open a block adds its name, if it has one. -/
def Opens (n : Node) (f g : Flow) : Prop :=
  match n with
  | .withBlock subject _ => ∃ name, subject.Shows name ∧ g = f.inBlock name
  | _ => g = f

theorem Opens.fails {n : Node} (hn : D.Allows n) (h : Opens n f g) {e : Flow}
    (hfails : D.Fails g e) : D.Fails f e := by
  cases n with
  | withBlock subject body =>
    obtain ⟨name, hname, rfl⟩ := h
    exact D.in_block hn hname hfails
  | _ =>
    cases h
    exact hfails

theorem leads_openBlock (hr : D.Rules evaluate) {n : Node} (hn : D.Obeys (.node n))
    {args : Arguments} (hargs : AdmitsArguments True args) :
    Leads f (openBlock evaluate args n)
      (fun ss g ↦ (∃ inner, Opens n f inner ∧ D.Ends inner g) ∧ ∀ s ∈ ss, D.Obeys s)
      (D.Fails f) := by
  have hopens {x : Eval (List Value)} (hsame : Opens n f f)
      (hx : D.Keeps x fun ss ↦ ∀ s ∈ ss, D.Obeys s) : Leads f x
      (fun ss g ↦ (∃ inner, Opens n f inner ∧ D.Ends inner g) ∧ ∀ s ∈ ss, D.Obeys s)
      (D.Fails f) :=
    (hx f).mono (fun _ _ h ↦ ⟨⟨f, hsame, h.1⟩, h.2⟩) fun _ h ↦ h
  cases n with
  | conditional directive branches =>
    refine hopens rfl ?_
    change D.Keeps (openConditional evaluate directive branches) _
    cases directive with
    | false =>
      exact keeps_takenBranch hr fun _ _ hb ↦ ⟨hn.part (.guard hb), hn.part (.body hb)⟩
    | true =>
      cases branches with
      | nil => exact .throw _
      | cons b bs =>
        obtain ⟨guard, body⟩ := b
        exact .of_stays (hn.part (.body List.mem_cons_self)).walk
  | select subject cases =>
    refine hopens rfl ((hr subject args (hn.part .subject) hargs).bind fun v hv ↦ ?_)
    exact (Keeps.of_stays (hn.part .cases).walk).bind fun ks hks ↦ keeps_takenCase hr hv hks
  | withBlock subject body =>
    have hshows : Stays (displayed subject) subject.Shows := by
      rintro f m hm rfl
      change Led _ _ (Eval.ofExcept (m.heap.resolve subject).written m)
      cases hwritten : (m.heap.resolve subject).written with
      | ok s => exact .ok hm ⟨rfl, m.heap, hwritten⟩
      | error e => exact .error hm rfl
    refine hshows.leads (D.fails_refl f) fun name hname ↦ ?_
    refine Leads.bind (Q := fun _ g ↦ g = f.inBlock name) (.modifyFrame ?_
      fun _ ↦ rfl) fun _ g hg ↦ ?_
    · rintro fr rfl
      rfl
    · refine ((hn.part .withBlock).walk g).mono (fun ss g' h ↦ ⟨⟨g, ⟨name, hname, hg⟩, ?_⟩, h.2⟩)
        fun g' h ↦ D.in_block hn.node hname (hg ▸ h ▸ D.fails_refl g)
      exact h.1 ▸ D.refl g
  | _ => exact .throw _ (D.fails_refl f)

theorem leads_closeBlock {n : Node} (hn : D.Allows n) {inner : Flow} (h : Opens n f inner)
    (hg : D.Ends inner g) {E : Flow → Prop} : Leads g (closeBlock n) (fun _ ↦ D.Ends f) E := by
  cases n with
  | withBlock subject body =>
    obtain ⟨name, hname, rfl⟩ := h
    change Leads g (modifyFrame fun fr ↦ { fr with withName := leaveWith fr.withName }) _ _
    refine .modifyFrame ?_ fun _ ↦ rfl
    rintro fr rfl
    exact D.close hn hname hg
  | _ =>
    cases h
    exact .pure hg

theorem admitsArguments_passedOn {args : Arguments} (hargs : AdmitsArguments True args) (n : Node) :
    AdmitsArguments True (passedOn args n) := by
  unfold passedOn
  split
  · exact hargs
  · exact admitsArguments_none

theorem keeps_block (hr : D.Rules evaluate) (rounds : Nat) {n : Node} (hblock : n.isBlock = true)
    (hn : D.Obeys (.node n)) {args : Arguments} (hargs : AdmitsArguments True args) :
    D.Keeps (evalNode evaluate rounds n args) (Admits True .operand) := by
  intro f
  rw [evalNode_block evaluate rounds hblock]
  refine (leads_openBlock hr hn hargs).bind fun ss g h ↦ ?_
  obtain ⟨⟨inner, hopens, hg⟩, hss⟩ := h
  refine (((keeps_evalBlock hr (admitsArguments_passedOn hargs n) hss).leads hg).mono
    (fun _ _ h ↦ h) fun _ h ↦ hopens.fails hn.node h).bind fun _ g' hg' ↦ ?_
  exact (leads_closeBlock hn.node hopens hg'.1).bind fun _ _ h ↦ .pure ⟨h, admits_null⟩

/-! Whole evaluations -/

/-- A statement without statements of its own at most leaves a loop or the procedure, and changes
nothing when it fails. -/
theorem leads_single (he : Evaluates True evaluate) (rounds : Nat) {n : Node}
    (hn : n.fits .statement = true) (hblock : n.isBlock = false) (hloop : n.repeats = false)
    {args : Arguments} (hargs : AdmitsArguments True args) :
    Leads f (evalNode evaluate rounds n args)
      (fun v g ↦ (g = f ∨ g = f.under f.control.lowered ∨ g = f.left) ∧ Admits True .operand v)
      (· = f) := by
  have of_stays {x : Eval Value} (hx : Stays x (Admits True .operand)) : Leads f x
      (fun v g ↦ (g = f ∨ g = f.under f.control.lowered ∨ g = f.left) ∧ Admits True .operand v)
      (· = f) :=
    (hx f).mono (fun _ _ h ↦ ⟨.inl h.1, h.2⟩) fun _ h ↦ h
  have hparts := hn
  cases n <;> simp only [Node.fits, Bool.and_eq_true] at hparts
  case select | conditional | withBlock => exact Bool.noConfusion hblock
  case forLoop | forEach | whileLoop | doLoop => exact Bool.noConfusion hloop
  case exitFor | exitDo =>
    change Leads f evalExitLoop _ _
    rw [evalExitLoop_eq]
    refine (leads_flagging _).mono (fun v g hg ↦ ?_) fun _ h ↦ h
    obtain ⟨runs, outer, hloops, rfl, rfl⟩ := hg
    refine ⟨.inr (.inl ?_), admits_null⟩
    rw [Control.lowered, hloops]
    rfl
  case exitProcedure =>
    refine Leads.bind (Q := fun _ g ↦ g = f.left) (.modifyFrame ?_ fun _ ↦ rfl) fun _ _ h ↦
      .pure ⟨.inr (.inr h), admits_null⟩
    rintro fr rfl
    rfl
  case selectClause => exact of_stays (.of_operand (he .operand _ args (fun _ ↦ hparts.2) hargs))
  case caseClause =>
    exact of_stays (.of_operand (ensures_evalCaseClause he args (fun _ ↦ hparts.2) _ _ _))
  case callStatement name _ =>
    exact of_stays (.of_operand (ensures_evalCallStatement he name fun _ ↦ hparts.2))
  case openFile _ number _ _ =>
    exact of_stays (.of_operand (ensures_evalOpenFile he number fun _ ↦ hparts.2))
  case print =>
    exact of_stays (.of_operand (ensures_evalPrint he (fun _ ↦ hparts.2.1) fun _ ↦ hparts.2.2))
  case attributeLine | optionLine | parameter | globalVar | unknown | property | selectCase | redim
      | goto | label | onError | codeModule =>
    exact of_stays (.pure admits_null)
  all_goals
    refine of_stays (.of_assignment (ensures_evalNode he rounds (fun _ ↦ ?_) hargs))
    exact hn

theorem keeps_evalNode (he : Evaluates True evaluate) (hr : D.Rules evaluate) (rounds : Nat)
    {n : Node} (hn : D.Obeys (.node n)) {args : Arguments} (hargs : AdmitsArguments True args) :
    D.Keeps (evalNode evaluate rounds n args) (Admits True .operand) := by
  by_cases hloop : n.repeats = true
  · exact fun f ↦ (leads_loop he hr rounds hloop hn args).mono (fun _ _ h ↦ ⟨D.restores h.1, h.2⟩)
      fun _ h ↦ h
  by_cases hblock : n.isBlock = true
  · exact keeps_block hr rounds hblock hn hargs
  refine fun f ↦ (leads_single he rounds hn.fits (Bool.eq_false_of_not_eq_true hblock)
    (Bool.eq_false_of_not_eq_true hloop) hargs).mono (fun v g h ↦ ⟨?_, h.2⟩)
      fun _ h ↦ h ▸ D.fails_refl f
  rcases h.1 with rfl | rfl | rfl
  · exact D.refl _
  · exact D.lower f
  · exact D.leave f

/-- Whatever obeys the discipline keeps it. -/
theorem rules (D : Discipline) (rounds depth : Nat) : D.Rules (Semantics.evaluate rounds depth) := by
  induction depth with
  | zero => exact fun _ _ _ _ ↦ .throw _
  | succ depth ih =>
    intro v args hv hargs
    cases v with
    | node n => exact keeps_evalNode (evaluates True rounds depth) ih rounds hv hargs
    | routine r => exact .of_operand (r.ensures_call (evaluates True rounds depth) hargs)
    | _ => exact .throw _

/-! Statements that are reached -/

theorem LoopPlan.Begins.obeyed {p : LoopPlan} {place k : Nat} {m m' : Machine} {body : List Value}
    (h : p.Begins evaluate place k m body m') (hr : D.Rules evaluate) (hp : p.Obeys D)
    (hm : m.Admitted True) (hf : D.Ends f m.frame.flow) :
    m'.Admitted True ∧ D.Ends f m'.frame.flow ∧ ∀ s ∈ body, D.Obeys s := by
  induction h with
  | now hnext =>
    obtain ⟨hm', hflow, hbody⟩ := (hp.next _ _).ok hm rfl hnext
    exact ⟨hm', hflow ▸ hf, hbody _ rfl⟩
  | later hnext hwhole hgoesOn _ ih =>
    obtain ⟨hm₁, hflow, hbody⟩ := (hp.next _ _).ok hm rfl hnext
    obtain ⟨hm₂, hends, -⟩ := (keeps_evalBody hr (hbody _ rfl) _).ok hm₁ hflow hwhole
    obtain ⟨hm₃, hflow₃, -⟩ := (hp.goesOn _).ok hm₂ rfl hgoesOn
    exact ih hm₃ (hflow₃ ▸ D.trans hf hends)

/-- On the way through a plan, up to a statement `s` of the body. -/
theorem obeyed_into_loop {limit depth k : Nat} {m₁ m₂ m₃ m₄ : Machine} {plan : LoopPlan}
    {front rest : List Value} {s : Value} (hplan : plan.Obeys D) (hm₁ : m₁.Admitted True)
    (hbegins : plan.Begins (Semantics.evaluate limit depth) 0 k m₁ (front ++ s :: rest) m₂)
    (hfront : evalBody (Semantics.evaluate limit depth) front m₂ = .ok false m₃)
    (hwritable : ensureWritable s m₃ = .ok () m₄) :
    m₄.Admitted True ∧ D.Ends m₁.frame.flow m₄.frame.flow ∧ D.Obeys s ∧ ∀ w ∈ rest, D.Obeys w := by
  have hr := rules D limit depth
  obtain ⟨hm₂, hends₂, hbody⟩ := hbegins.obeyed hr hplan hm₁ (D.refl _)
  obtain ⟨hfront', hs, hrest⟩ :=
    List.forall_mem_append.mp hbody |>.imp_right List.forall_mem_cons.mp
  obtain ⟨hm₃, hends₃, -⟩ := (keeps_evalBody hr hfront' _).ok hm₂ rfl hfront
  obtain ⟨hm₄, hflow, -⟩ := (Stays.of_operand (.ensureWritable s) _).ok hm₃ rfl hwritable
  exact ⟨hm₄, hflow ▸ D.trans hends₂ hends₃, hs, hrest⟩

/-- On the way into a block, up to a statement `s` of its body, its name is added. -/
theorem obeyed_into_block {limit depth : Nat} {n : Node} (hn : D.Obeys (.node n)) {args : Arguments}
    (hargs : AdmitsArguments True args) {m m₁ m₂ : Machine} (hm : m.Admitted True)
    {front rest : List Value} {s : Value}
    (hopen : openBlock (Semantics.evaluate limit depth) args n m = .ok (front ++ s :: rest) m₁)
    (hfront : evalBlock (Semantics.evaluate limit depth) (passedOn args n) front m₁ = .ok () m₂) :
    m₂.Admitted True ∧ (∃ inner, Opens n m.frame.flow inner ∧ D.Ends inner m₂.frame.flow) ∧
      D.Obeys s ∧ ∀ w ∈ rest, D.Obeys w := by
  have hr := rules D limit depth
  obtain ⟨hm₁, ⟨inner, hopens, hends₁⟩, hbody⟩ := (leads_openBlock hr hn hargs).ok hm rfl hopen
  obtain ⟨hfront', hs, hrest⟩ :=
    List.forall_mem_append.mp hbody |>.imp_right List.forall_mem_cons.mp
  obtain ⟨hm₂, hends₂, -⟩ :=
    (keeps_evalBlock hr (admitsArguments_passedOn hargs n) hfront' _).ok hm₁ rfl hfront
  exact ⟨hm₂, ⟨inner, hopens, D.trans hends₁ hends₂⟩, hs, hrest⟩

/-- What is left to do are statements that obey. -/
def Pending.Obeys (D : Discipline) : Pending → Prop
  | .block _ _ args rest => AdmitsArguments True args ∧ ∀ s ∈ rest, D.Obeys s
  | .loop _ _ plan _ _ rest => plan.Obeys D ∧ ∀ s ∈ rest, D.Obeys s

/-- Where an evaluation comes to a statement, the discipline holds as if it failed there. -/
theorem Reaches.obeyed {limit depth : Nat} {e : Node} {s : Value} {args : Arguments}
    {m m' : Machine} {ps : List Pending} (h : Reaches limit e depth s args m ps m')
    (hs : D.Obeys s) (hargs : AdmitsArguments True args) (hm : m.Admitted True) :
    m'.Admitted True ∧ D.Fails m.frame.flow m'.frame.flow ∧ D.Obeys (.node e) ∧
      ∀ p ∈ ps, p.Obeys D := by
  induction h with
  | here => exact ⟨hm, D.fails_refl _, hs, nofun⟩
  | @block depth n args m m₁ m₂ m' front s rest ps _ hopen hfront _ ih =>
    have hpassed := admitsArguments_passedOn hargs n
    obtain ⟨hm₂, ⟨inner, hopens, hends⟩, hs', hrest⟩ := obeyed_into_block hs hargs hm hopen hfront
    obtain ⟨hm', hfails, he, hps⟩ := ih hs' hpassed hm₂
    exact ⟨hm', hopens.fails hs.node (D.trans_fails hends hfails), he,
      List.forall_mem_append.mpr ⟨hps, List.forall_mem_singleton.mpr ⟨hpassed, hrest⟩⟩⟩
  | @loop depth k rounds n args m m₁ m₂ m₃ m₄ m' plan front s rest ps _ henter hbegins _ hfront
      hwritable _ ih =>
    obtain ⟨hm₁, hflow, hplan⟩ := (enters_loop (evaluates True limit depth) hs _).ok hm rfl henter
    obtain ⟨hm₄, hends, hs', hrest⟩ := obeyed_into_loop hplan hm₁ hbegins hfront hwritable
    obtain ⟨hm', hfails, he, hps⟩ := ih hs' admitsArguments_none hm₄
    exact ⟨hm', D.in_loop (hflow ▸ D.trans_fails hends hfails), he,
      List.forall_mem_append.mpr ⟨hps, List.forall_mem_singleton.mpr ⟨hplan, hrest⟩⟩⟩

end Semantics

end VbaTrace
