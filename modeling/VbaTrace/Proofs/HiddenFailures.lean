import VbaTrace.Proofs.LoopExits
import VbaTrace.Proofs.Unwinding

/-!
What a loop over items leaves open when it hides a failure. It pops one flag at its end, but the
loops and blocks in which a statement of its body failed have not been ended: each such loop leaves
one flag more and each such `With` block its name, while nothing of what was open before the loop is
lost (`forEach_leaves_interrupted_open`). So a `For Each` loop restores what it found if no
statement fails, or one that stands in no inner loop or `With` block.
-/

set_option autoImplicit false

namespace VbaTrace

/-- A failure is hidden, and what was done before it stays. -/
theorem Eval.hide_eq (x : Eval Unit) (m : Machine) :
    Eval.handle x Eval.anyFault (fun _ ↦ return ()) m = .ok () (x.final m) := by
  cases hxm : x m with
  | ok a m' => rw [Eval.handle_of_ok hxm, Eval.final_of_ok hxm]
  | error f m' =>
    rw [Eval.handle_of_error hxm, Eval.final_of_error hxm]
    rfl

namespace Semantics

variable {limit depth : Nat} {item container body : Value} {args : Arguments} {m : Machine}

theorem popLoop_of_ne_nil (h : m.frame.control.loops ≠ []) :
    ∃ m', popLoop m = .ok () m' ∧ m'.frame.control = m.frame.control.popped := by
  obtain ⟨first, rest, hloops⟩ := List.exists_cons_of_ne_nil h
  refine ⟨_, popLoop_of_loops hloops, ?_⟩
  unfold Control.popped
  rw [hloops]
  rfl

/-- A loop over items pops one flag, wherever its rounds have ended. -/
theorem evaluate_forEach {plan : LoopPlan} {m₁ : Machine} {flag : Bool} {flags : List Bool}
    {names : List String}
    (henter : enterLoop (evaluate limit depth) (.forEach item container body) m = .ok plan m₁)
    (hend : (m.frame.control.inLoop flag).Added flags names
      ((plan.run (evaluate limit depth) limit 0).final m₁).frame.control) :
    ∃ m' flags', evaluate limit (depth + 1) (.node (.forEach item container body)) args m =
        .ok .null m' ∧
      flags'.length = flags.length ∧ m.frame.control.Added flags' names m'.frame.control := by
  obtain ⟨hne, flags', hlength, hpopped⟩ := hend.popped
  obtain ⟨m', hpop, hcontrol⟩ := popLoop_of_ne_nil hne
  refine ⟨m', flags', ?_, hlength, hcontrol ▸ hpopped⟩
  have hhidden : shielded (.forEach item container body) (plan.run (evaluate limit depth) limit 0)
      m₁ = .ok () ((plan.run (evaluate limit depth) limit 0).final m₁) := Eval.hide_eq _ m₁
  change evalNode (evaluate limit depth) limit (.forEach item container body) args m = _
  rw [evalNode_loop _ _ rfl, Eval.bind_of_ok henter, Eval.bind_of_ok hhidden, Eval.bind_of_ok hpop]
  rfl

/-- Where the rounds end with nothing left open, the loop restores what it found. -/
theorem evaluate_forEach_restores {plan : LoopPlan} {m₁ : Machine} {flag : Bool}
    (henter : enterLoop (evaluate limit depth) (.forEach item container body) m = .ok plan m₁)
    (hend : ((plan.run (evaluate limit depth) limit 0).final m₁).frame.control =
      m.frame.control.inLoop flag) :
    ∃ m', evaluate limit (depth + 1) (.node (.forEach item container body)) args m = .ok .null m' ∧
      m'.frame.control = m.frame.control := by
  have hadded : (m.frame.control.inLoop flag).Added [] []
      ((plan.run (evaluate limit depth) limit 0).final m₁).frame.control := hend ▸ .refl _
  obtain ⟨m', flags, heq, hlength, hadded'⟩ := evaluate_forEach henter hadded
  exact ⟨m', heq, hadded'.eq_iff.mpr ⟨List.length_eq_zero_iff.mp hlength, rfl⟩⟩

/-- If the next round cannot begin, the rounds end there. -/
theorem control_run_of_next_error (limit depth : Nat) {plan : LoopPlan}
    (hplan : plan.Obeys (nesting true)) {m₁ m₂ : Machine} {f : Fault} (hm₁ : m₁.Admitted True)
    (hnext : plan.next 0 m₁ = .error f m₂) :
    ((plan.run (evaluate limit depth) limit 0).final m₁).frame.control = m₁.frame.control := by
  cases limit with
  | zero => rfl
  | succ rounds =>
    have hrun : plan.run (evaluate (rounds + 1) depth) (rounds + 1) 0 m₁ = .error f m₂ :=
      Eval.bind_of_error hnext _
    rw [Eval.final_of_error hrun]
    exact congrArg Flow.control ((hplan.next 0 _).error hm₁ rfl hnext).2

section

variable (hfits : (Node.forEach item container body).fits .statement = true) (hm : m.Admitted True)

include hfits hm

/-- What a loop over items does before its rounds, by the parts of its tree. -/
theorem leads_enterItems {free : Bool} (hbody : body.isTidy free = true) {plan : LoopPlan}
    {m₁ : Machine}
    (h : enterLoop (evaluate limit depth) (.forEach item container body) m = .ok plan m₁) :
    m₁.Admitted True ∧ m₁.frame.flow = m.frame.flow.inLoop ∧ plan.Obeys (nesting free) := by
  simp only [Node.fits, Bool.and_eq_true] at hfits
  have hobeys : body.Tidy free := ⟨hfits.2.2, hbody⟩
  exact (enters_items (evaluates True limit depth) item (fun _ ↦ hfits.2.1) hobeys.obeys _).ok hm
    rfl h

theorem forEach_adds (hbody : body.isTidy false = true) {v : Value} {m' : Machine}
    (h : evaluate limit (depth + 1) (.node (.forEach item container body)) args m = .ok v m') :
    ∃ flags names, m.frame.control.Added flags names m'.frame.control := by
  have htidy : (Value.node (.forEach item container body)).Tidy false :=
    ⟨hfits, by simpa [Value.isTidy, Node.isTidy] using hbody⟩
  obtain ⟨-, ⟨flags, names, hadded, -⟩, -⟩ := (leads_loop (evaluates True limit depth)
    (rules (nesting false) limit depth) limit rfl htidy.obeys args).ok hm rfl h
  exact ⟨flags, names, hadded⟩

theorem forEach_restores (hbody : body.isTidy true = true) {plan : LoopPlan} {m₁ m₂ : Machine}
    (henter : enterLoop (evaluate limit depth) (.forEach item container body) m = .ok plan m₁)
    (hend : plan.run (evaluate limit depth) limit 0 m₁ = .ok () m₂ ∨
      ∃ f, plan.next 0 m₁ = .error f m₂) :
    ∃ m', evaluate limit (depth + 1) (.node (.forEach item container body)) args m = .ok .null m' ∧
      m'.frame.control = m.frame.control := by
  obtain ⟨hm₁, hflow, hplan⟩ := leads_enterItems hfits hm hbody henter
  rcases hend with hrun | ⟨f, hnext⟩
  · have hkeeps := keeps_run (rules (nesting true) limit depth) hplan limit 0
    obtain ⟨-, hkept, -⟩ := (hkeeps _).ok hm₁ hflow hrun
    obtain ⟨flag, hflag⟩ := Control.Kept.eq_inLoop hkept
    exact evaluate_forEach_restores henter (Eval.final_of_ok hrun ▸ hflag)
  · have hsame := control_run_of_next_error limit depth hplan hm₁ hnext
    exact evaluate_forEach_restores henter (hsame.trans (congrArg Flow.control hflow))

theorem forEach_interrupted (hbody : body.isTidy true = true) {e : Node} {inner : List Pending}
    {p : Pending} {m₁ m₂ : Machine} {f : Fault} (hblock : e.isBlock = false)
    (hloop : e.repeats = false)
    (hreaches : Reaches limit e (depth + 1) (.node (.forEach item container body)) args m
      (inner ++ [p]) m₁)
    (herror : evaluate limit (Pending.place inner depth none).1 (.node e)
      (Pending.place inner depth none).2 m₁ = .error f m₂) :
    ∃ m' flags, evaluate limit (depth + 1) (.node (.forEach item container body)) args m =
        .ok .null m' ∧
      flags.length = Pending.loopCount inner ∧
      m.frame.control.Added flags (Pending.blockNames inner) m'.frame.control := by
  generalize hps : inner ++ [p] = ps at hreaches
  cases hreaches with
  | here => exact absurd hps (by simp)
  | block hnot => exact nomatch hnot
  | @loop _ k rounds _ _ _ m₃ m₄ m₅ m₆ _ plan front s rest ps _ henter hbegins hlimit hfront
      hwritable hreaches =>
    obtain ⟨rfl, -⟩ := List.append_inj' hps rfl
    obtain ⟨hm₃, hflow, hplan⟩ := leads_enterItems hfits hm hbody henter
    obtain ⟨hm₆, hkept, hs, -⟩ := obeyed_into_loop hplan hm₃ hbegins hfront hwritable
    obtain ⟨hm₁, -, he, -⟩ := hreaches.obeyed hs admitsArguments_none hm₆
    obtain ⟨heach, base, hbase, flags, hlength, hadded⟩ :=
      hreaches.nested hs admitsArguments_none hm₆
    rw [hflow] at hkept
    obtain ⟨flag, rfl⟩ := (Control.Kept.trans hkept hbase).eq_inLoop
    have hcontrol : m₂.frame.control = m₁.frame.control := control_of_error he.fits hblock hloop
      (hreaches.admits_place admitsArguments_none) hm₁ herror
    have hrun := LoopPlan.run_of_error hbegins hfront hwritable (hreaches.fails heach herror) rounds
    rw [← hlimit] at hrun
    rw [← hcontrol, ← Eval.final_of_error hrun] at hadded
    obtain ⟨m', flags', heq, hlength', hadded'⟩ := evaluate_forEach henter hadded
    exact ⟨m', flags', heq, hlength'.trans hlength, hadded'⟩

end

/-- A loop over items that ends normally has lost nothing of what was open before. It restores that
exactly if no statement fails, and also if the container cannot be walked over. If a statement
fails, the loops and the `With` blocks of the body around that statement stay open, each of them, so
that the loop restores what it found only if there are none. -/
theorem forEach_leaves_interrupted_open
    (hfits : (Node.forEach item container body).fits .statement = true) (hm : m.Admitted True) :
    (body.isTidy false = true → ∀ v m',
      evaluate limit (depth + 1) (.node (.forEach item container body)) args m = .ok v m' →
      ∃ flags names, m.frame.control.Added flags names m'.frame.control ∧
        (m'.frame.control = m.frame.control ↔ flags = [] ∧ names = [])) ∧
    (body.isTidy true = true → ∀ plan m₁ m₂,
      enterLoop (evaluate limit depth) (.forEach item container body) m = .ok plan m₁ →
      (plan.run (evaluate limit depth) limit 0 m₁ = .ok () m₂ ∨
        ∃ f, plan.next 0 m₁ = .error f m₂) →
      ∃ m', evaluate limit (depth + 1) (.node (.forEach item container body)) args m =
        .ok .null m' ∧ m'.frame.control = m.frame.control) ∧
    (body.isTidy true = true → ∀ e inner p m₁ f m₂, e.isBlock = false → e.repeats = false →
      Reaches limit e (depth + 1) (.node (.forEach item container body)) args m (inner ++ [p]) m₁ →
      evaluate limit (Pending.place inner depth none).1 (.node e) (Pending.place inner depth none).2
        m₁ = .error f m₂ →
      ∃ m' flags, evaluate limit (depth + 1) (.node (.forEach item container body)) args m =
          .ok .null m' ∧
        flags.length = Pending.loopCount inner ∧
        m.frame.control.Added flags (Pending.blockNames inner) m'.frame.control ∧
        (m'.frame.control = m.frame.control ↔
          Pending.loopCount inner = 0 ∧ Pending.blockNames inner = [])) := by
  refine ⟨fun hbody v m' h ↦ ?_, fun hbody plan m₁ m₂ henter hend ↦ ?_,
    fun hbody e inner p m₁ f m₂ hblock hloop hreaches herror ↦ ?_⟩
  · obtain ⟨flags, names, hadded⟩ := forEach_adds hfits hm hbody h
    exact ⟨flags, names, hadded, hadded.eq_iff⟩
  · exact forEach_restores hfits hm hbody henter hend
  · obtain ⟨m', flags, heq, hlength, hadded⟩ :=
      forEach_interrupted hfits hm hbody hblock hloop hreaches herror
    refine ⟨m', flags, heq, hlength, hadded, ?_⟩
    rw [hadded.eq_iff, ← hlength, List.length_eq_zero_iff]

/-- To write to a file that is not open fails. -/
def strayPrint : Node :=
  .print (.text "#1") (.text "q")

/-- The loop `For i = 1 To 3` with this statement as its body. -/
def strayLoop : CountingLoop where
  name := "i"
  isAscii := CountingLoop.greeting.isAscii
  start := .int 1
  stop := .int 3
  step := .int 1
  body := .tokens (.ofList [.node strayPrint])

/-- The block `With y` around this loop. -/
def strayBlock : Node :=
  .withBlock (.text "y") (.tokens (.ofList [.node strayLoop.node]))

/-- A loop over items; its reading keeps neither the item nor the container. -/
def itemLoop (body : Node) : Node :=
  .forEach (.text "") (.text "") (.tokens (.ofList [.node body]))

/-- A machine in a `With` block with the name of a variable, which holds a text. -/
def inTextBlock : Machine :=
  { frame := { locals := ⟨[("x", .text "ab")]⟩, withName := "x" } }

theorem inTextBlock_admitted : inTextBlock.Admitted True :=
  .of_tables (.of_entries (by decide)) (.of_entries (by decide)) (.of_entries (by decide))
    Heap.stocked_empty rfl rfl

/-- This machine in the first round over the characters of the text. -/
def inFirstRound : Machine :=
  (insideLoop inTextBlock).assign "" (.text "a") none

/-- The same in the block inside of the loop. -/
def inStrayBlock : Machine :=
  { inFirstRound with frame := { inFirstRound.frame with withName := "x.y" } }

theorem strayBlock_reaches : ∃ p₁ p₂ p₃,
    Reaches 3 strayPrint 4 (.node (itemLoop strayBlock)) none inTextBlock ([p₁, p₂] ++ [p₃])
      (strayLoop.entered 1 inStrayBlock) ∧
    Pending.place [p₁, p₂] 3 none = (1, none) ∧ Pending.loopCount [p₁, p₂] = 1 ∧
    Pending.blockNames [p₁, p₂] = ["y"] := by
  have hsmall : ∀ n ∈ [(1 : Int), 3, 1], n.natAbs < Nat.pow 10 2 := by decide
  have hprint : strayPrint.isWritable = true := by simp [strayPrint, Node.isWritable, Value.isWritable]
  have hloop := @CountingLoop.reaches 1 strayPrint none inStrayBlock _ strayLoop inStrayBlock 1 3 1 2
    (.node strayPrint) [] []
    (strayLoop.bounds_of_small (evaluate 3 1) inStrayBlock rfl rfl rfl hsmall)
    (fun n hn ↦ CountingLoop.isWritable_small (hsmall n hn)) (by decide) (fun m ↦ walk_ofList _ m)
    (ensureWritable_node hprint _) .here
  have hblock := @Reaches.block 3 strayPrint 2 strayBlock none inFirstRound _ _ _ [] _ [] _ rfl rfl rfl
    hloop
  have hwritable : strayBlock.isWritable = true := by
    simp [strayBlock, strayLoop, strayPrint, CountingLoop.node, Tokens.ofList, Node.isWritable,
      Value.isWritable, allWritable, isWritable_one, CountingLoop.isWritable_small (hsmall 3 (by decide))]
  have heach := @Reaches.loop 3 strayPrint 3 0 2 (itemLoop strayBlock) none inTextBlock _ _ _ _ _ _ []
    _ [] _ rfl rfl (.now rfl) rfl rfl (ensureWritable_node hwritable _) hblock
  exact ⟨_, _, _, heach, rfl, rfl, rfl⟩

theorem forEach_leaves_interrupted_open_printing :
    (itemLoop strayBlock).fits .statement = true ∧
      (Value.tokens (.ofList [.node strayBlock])).isTidy true = true ∧ inTextBlock.Admitted True ∧
      (∃ f m₂, evaluate 3 1 (.node strayPrint) none (strayLoop.entered 1 inStrayBlock) =
        .error f m₂) ∧
      ∃ m' flags, evaluate 3 4 (.node (itemLoop strayBlock)) none inTextBlock = .ok .null m' ∧
        flags.length = 1 ∧ inTextBlock.frame.control.Added flags ["y"] m'.frame.control := by
  have hfails : ∃ f m₂, evaluate 3 1 (.node strayPrint) none (strayLoop.entered 1 inStrayBlock) =
      .error f m₂ := ⟨_, _, rfl⟩
  refine ⟨by decide, by decide, inTextBlock_admitted, hfails, ?_⟩
  obtain ⟨p₁, p₂, p₃, hreaches, hplace, hcount, hnames⟩ := strayBlock_reaches
  obtain ⟨f, m₂, hfails⟩ := hfails
  have hleaves := (forEach_leaves_interrupted_open (by decide) inTextBlock_admitted).2.2 (by decide)
    _ _ _ _ f m₂ rfl rfl hreaches (by rw [hplace]; exact hfails)
  obtain ⟨m', flags, heq, hlength, hadded, -⟩ := hleaves
  exact ⟨m', flags, heq, hlength.trans hcount, hnames ▸ hadded⟩

/-- The loop over the characters ends normally, and the loop inside of it stays open. -/
theorem forEach_not_restoring : ¬ ∀ (limit depth : Nat) (item container body : Value)
    (m m' : Machine) (v : Value), (Node.forEach item container body).fits .statement = true →
    body.isTidy true = true → m.Admitted True →
    evaluate limit (depth + 1) (.node (.forEach item container body)) none m = .ok v m' →
    m'.frame.control = m.frame.control := by
  intro h
  cases hrun : evaluate 3 4 (.node (itemLoop strayLoop.node)) none inTextBlock with
  | ok v m' =>
    have hcontrol := h 3 3 _ _ _ _ m' v (by decide) (by decide) inTextBlock_admitted hrun
    have hloops :
        ((evaluate 3 4 (.node (itemLoop strayLoop.node)) none).final inTextBlock).frame.loops = [] := by
      rw [Eval.final_of_ok hrun]
      exact congrArg Control.loops hcontrol
    exact absurd hloops (by decide +kernel)
  | error f m' =>
    have hends :
        (evaluate 3 4 (.node (itemLoop strayLoop.node)) none).fails Eval.anyFault inTextBlock = false := by
      decide +kernel
    rw [Eval.fails_of_error hrun] at hends
    exact nomatch hends

end Semantics

end VbaTrace
