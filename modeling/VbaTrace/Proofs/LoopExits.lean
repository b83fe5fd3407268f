import VbaTrace.Proofs.ConditionValues
import VbaTrace.Proofs.Flags
import VbaTrace.Proofs.LoopLimits

/-!
How far an exit from a loop reaches. It lowers the flag of the loop, and the loop looks at it behind
the statements of its own body. So no further statement of that body is evaluated and no further
round is made, but the blocks around the exit go on to their ends first (`exit_ends_loop`).
-/

set_option autoImplicit false

namespace VbaTrace

/-- An exit from the innermost loop. -/
def Node.exitsLoop : Node → Bool
  | .exitFor | .exitDo => true
  | _ => false

namespace Semantics

variable {limit depth : Nat} {n e : Node} {args : Arguments} {m m' : Machine}

/-- The machine in which the innermost loop is left. -/
def loopLeft (m : Machine) : Machine :=
  { m with frame := { m.frame with loops := lowerFirst m.frame.loops } }

theorem evaluate_exitLoop (he : e.exitsLoop = true) (hloops : m.frame.loops ≠ [])
    (limit depth : Nat) (args : Arguments) :
    evaluate limit (depth + 1) (.node e) args m = .ok .null (loopLeft m) := by
  have hexit : evaluate limit (depth + 1) (.node e) args = evalExitLoop := by
    cases e with
    | exitFor | exitDo => rfl
    | _ => exact nomatch he
  obtain ⟨flag, outer, hcons⟩ := List.exists_cons_of_ne_nil hloops
  rw [hexit, evalExitLoop, Eval.bind_of_ok (rfl : (get : Eval Machine) m = .ok m m), loopLeft,
    hcons]
  rfl

theorem restOfBody_of_left {evaluate : Evaluator} {outer : List Bool}
    (h : m.frame.loops = false :: outer) (rest : List Value) :
    restOfBody evaluate rest m = .ok true m :=
  Eval.bind_of_ok (loopRuns_of_loops h) _

/-- An exit that is reached through blocks finds the flag of the loop around them innermost. -/
theorem Reaches.inside_loop (hn : n.repeats = true) (hobeys : (falling True).Obeys (.node n))
    (hm : m.Admitted True) {inner : List Pending} {p : Pending}
    (hinner : ∀ q ∈ inner, q.isBlock = true)
    (h : Reaches limit e (depth + 1) (.node n) args m (inner ++ [p]) m') :
    (∃ plan rounds place rest, p = .loop n depth plan rounds place rest) ∧
      Lowers (true :: m.frame.loops) m'.frame.loops := by
  generalize hps : inner ++ [p] = ps at h
  cases h with
  | here => exact absurd hps (by simp)
  | block hblock =>
    cases n with
    | forLoop | forEach | whileLoop | doLoop => exact nomatch hblock
    | _ => exact nomatch hn
  | @loop _ k rounds _ _ _ m₁ m₂ m₃ m₄ _ plan front s rest _ _ henter hbegins _ hfront hwritable
      hreaches =>
    obtain ⟨rfl, hp⟩ := List.append_inj' hps rfl
    obtain ⟨hm₁, hflow, hplan⟩ := (enters_loop (evaluates True limit depth) hobeys _).ok hm rfl henter
    obtain ⟨hm₄, hbegun, hs, -⟩ := obeyed_into_loop hplan hm₁ hbegins hfront hwritable
    have hreached := hreaches.falls hs admitsArguments_none hm₄ hinner
    rw [hflow] at hbegun
    exact ⟨⟨plan, rounds, k + 1, rest, by simpa using hp⟩,
      (hbegun.2 True.intro).trans (hreached.2 True.intro)⟩

namespace Pending

/-- A loop that was left is only popped. -/
theorem resume_of_left (heach : n.isEach = false) {x : Eval Unit} {m : Machine}
    (hx : ∀ m₁, x m = .ok () m₁ → ∃ outer, m₁.frame.loops = false :: outer) (plan : LoopPlan)
    (rounds place : Nat) (rest : List Value) :
    (loop n depth plan rounds place rest).resume limit x m = (do
      x
      popLoop) m := by
  change (shielded n _ >>= fun _ ↦ popLoop) m = _
  rw [shielded_of_not_each heach, bind_assoc]
  cases hxm : x m with
  | ok a m₁ =>
    obtain ⟨outer, hloops⟩ := hx m₁ hxm
    rw [Eval.bind_of_ok hxm, Eval.bind_of_ok hxm, bind_assoc,
      Eval.bind_of_ok (restOfBody_of_left hloops rest)]
    rfl
  | error f m₁ => rw [Eval.bind_of_error hxm, Eval.bind_of_error hxm]

/-- A loop that was left stays left while blocks inside of it go on. -/
theorem loops_resumeAll {ps : List Pending} (hps : ∀ p ∈ ps, p.Obeys (falling True))
    (hblocks : ∀ p ∈ ps, p.isBlock = true) {m m₁ : Machine} {outer : List Bool}
    (hm : m.Admitted True) (hleft : m.frame.loops = false :: outer)
    (hok : resumeAll limit ps (return ()) m = .ok () m₁) : m₁.frame.loops = false :: outer := by
  have hkeeps : (falling True).Keeps (resumeAll limit ps (return ())) fun _ ↦ True :=
    keeps_resumeAll hps (fun _ ↦ hblocks) (.pure True.intro)
  obtain ⟨-, ⟨-, hlowers⟩, -⟩ := (hkeeps _).ok hm rfl hok
  have hnow : Lowers (false :: outer) m₁.frame.loops := hleft ▸ hlowers True.intro
  exact hnow.elim id id

/-- The statements behind the one that is evaluated. -/
def rest : Pending → List Value
  | block _ _ _ rest | loop _ _ _ _ _ rest => rest

/-- Blocks without further statements are only closed, which may change the name of the enclosing
`With` blocks. -/
theorem resumeAll_of_rest_eq_nil (limit : Nat) {ps : List Pending}
    (hblocks : ∀ p ∈ ps, p.isBlock = true) (hrest : ∀ p ∈ ps, p.rest = []) {x : Eval Unit}
    {m : Machine}
    (hx : ∃ name, x m = .ok () { m with frame := { m.frame with withName := name } }) :
    ∃ name, resumeAll limit ps x m =
      .ok () { m with frame := { m.frame with withName := name } } := by
  induction ps generalizing x with
  | nil => exact hx
  | cons p ps ih =>
    obtain ⟨hp, hps⟩ := List.forall_mem_cons.mp hblocks
    obtain ⟨hpnil, hpsnil⟩ := List.forall_mem_cons.mp hrest
    refine ih hps hpsnil ?_
    obtain ⟨name, hx⟩ := hx
    cases p with
    | loop => exact nomatch hp
    | block n depth args rest =>
      rw [show rest = [] from hpnil]
      change ∃ name, (x >>= fun _ ↦ closeBlock n) m = _
      rw [Eval.bind_of_ok hx]
      unfold closeBlock
      split
      · exact ⟨_, rfl⟩
      · exact ⟨name, rfl⟩

end Pending

/-- Once an exit has been evaluated, inside of any blocks but no inner loop, the loop evaluates no
further statement of its own body and ends. But what is left of the blocks around the exit is
evaluated before that; if nothing is left there, the loop ends at once. -/
theorem exit_ends_loop (hn : n.repeats = true) (he : e.exitsLoop = true)
    (hfits : n.fits .statement = true) (heach : n.isEachFree = true)
    (hargs : AdmitsArguments True args) (hm : m.Admitted True) {inner : List Pending} {p : Pending}
    (hinner : ∀ q ∈ inner, q.isBlock = true)
    (h : Reaches limit e (depth + 1) (.node n) args m (inner ++ [p]) m') :
    (loopLeft m').frame.loops = false :: m.frame.loops ∧
      evaluate limit (depth + 1) (.node n) args m = (do
        Pending.resumeAll limit inner (return ())
        popLoop
        return .null : Eval Value) (loopLeft m') ∧
      ((∀ q ∈ inner, q.rest = []) → ∃ name, evaluate limit (depth + 1) (.node n) args m =
        .ok .null { m' with
          frame := { m'.frame with loops := m.frame.loops, withName := name } }) := by
  have hobeys : (falling True).Obeys (.node n) := falling_obeys hfits fun _ ↦ heach
  obtain ⟨⟨plan, rounds, place, rest, rfl⟩, hlowers⟩ := h.inside_loop hn hobeys hm hinner
  obtain ⟨hm', -, -, hpending⟩ := h.obeyed hobeys hargs hm
  have hflags : m'.frame.loops ≠ [] ∧ lowerFirst m'.frame.loops = false :: m.frame.loops := by
    rcases hlowers with h | h <;> simp [h, lowerFirst]
  have hleft : (loopLeft m').frame.loops = false :: m.frame.loops := hflags.2
  have hadmitted : (loopLeft m').Admitted True := by
    obtain ⟨hlocals, hglobals, hheap, hproperties, hitems⟩ := hm'
    exact ⟨hlocals, hglobals, hheap, hproperties, hitems⟩
  have hstays (m₁ : Machine) (hok : Pending.resumeAll limit inner (return ()) (loopLeft m') =
      .ok () m₁) : m₁.frame.loops = false :: m.frame.loops :=
    Pending.loops_resumeAll (List.forall_mem_append.mp hpending).1 hinner hadmitted hleft hok
  have hequation : evaluate limit (depth + 1) (.node n) args m = (do
      Pending.resumeAll limit inner (return ())
      popLoop
      return .null : Eval Value) (loopLeft m') := by
    have hresumes := h.resumes (evaluate_exitLoop he hflags.1 limit)
    rw [Pending.resumeAll_concat, Eval.bind_congr_at (Pending.resume_of_left (hobeys.node True.intro)
      (fun m₁ hok ↦ ⟨_, hstays m₁ hok⟩) plan rounds place rest), bind_assoc] at hresumes
    exact hresumes
  refine ⟨hleft, hequation, fun hrest ↦ ?_⟩
  obtain ⟨name, hcloses⟩ := Pending.resumeAll_of_rest_eq_nil limit hinner hrest
    (x := return ()) (m := loopLeft m') ⟨_, rfl⟩
  refine ⟨name, ?_⟩
  rw [hequation, Eval.bind_of_ok hcloses, Eval.bind_of_ok (popLoop_of_loops (hstays _ hcloses))]
  rfl

/-- The first round of a counting loop comes to the first statement of its body. -/
theorem CountingLoop.reaches {l : CountingLoop} {m₁ : Machine} {first last step : Int} {rounds : Nat}
    {s : Value} {rest : List Value} {ps : List Pending}
    (hbounds : l.bounds (evaluate (rounds + 1) depth) m = .ok (.int first, .int last, .int step) m₁)
    (hwritable : ∀ n ∈ [first, last, step], Decimal.isWritable n = true)
    (hfirst : first ≤ capped m.loopBound last) (hbody : ∀ m, walk l.body m = .ok (s :: rest) m)
    (hs : ensureWritable s (l.entered first m₁) = .ok () (l.entered first m₁))
    (h : Reaches (rounds + 1) e depth s none (l.entered first m₁) ps m') :
    Reaches (rounds + 1) e (depth + 1) (.node l.node) args m
      (ps ++ [.loop l.node depth (countingPlan (.text l.name) (capped m.loopBound last) (.int step)
        l.body) rounds 1 rest]) m' :=
  @Reaches.loop (rounds + 1) e depth 0 rounds l.node args m _ _ _ _ m' _ [] s rest ps rfl
    (enterLoop_node hbounds hwritable) (.now (next_of_le hbody (l.resolve?_entered first m₁) hfirst
      (hwritable first (by simp)) 0)) (by omega) rfl hs h

theorem empty_admitted : ({} : Machine).Admitted True :=
  .of_tables (.of_entries (by decide)) (.of_entries (by decide)) (.of_entries (by decide))
    Heap.stocked_empty rfl rfl

/-- The comparison `i = 1`. -/
def isFirst : Value :=
  .node (.comparison (.node (.simpleName "i")) (.text "=") (.int 1))

theorem isWritable_isFirst : isFirst.isWritable = true := by
  simp [isFirst, Value.isWritable, Node.isWritable, isWritable_one]

theorem shows_isFirst (limit depth : Nat) (hi : m.resolve? "i" = some (.int 1)) :
    Shows (evaluate limit (depth + 2)) m isFirst true := by
  have hname : Gives (evaluate limit (depth + 1)) m (.node (.simpleName "i")) (.int 1) :=
    gives_fetched (fetch_of_some hi) (isWritable_resolve_int m.heap isWritable_one) rfl
  exact @shows_comparison m .equal _ _ 1 1 limit (depth + 1) isWritable_isFirst hname
    (gives_int isWritable_one)

/-- A conditional on the first round with an exit, and the statements `behind` the exit. -/
def leavingBlock (behind : List Value) : Node :=
  .conditional false [.mk (.node (.condition isFirst .null .null))
    (.tokens (.ofList (.node .exitFor :: behind)))]

theorem openBlock_leaving (limit depth : Nat) (behind : List Value)
    (hi : m.resolve? "i" = some (.int 1)) :
    openBlock (evaluate limit (depth + 3)) none (leavingBlock behind) m =
      .ok (.node .exitFor :: behind) m := by
  obtain ⟨w, hw, htrue⟩ :=
    (shows_single rfl isWritable_isFirst (shows_isFirst limit depth hi)).exists_evaluate
  have htruth : truth w m = .ok true m := congrArg (EStateM.Result.ok · m) htrue
  change (evaluate limit (depth + 3) _ none >>= fun v ↦ truth v >>= _ : Eval (List Value)) m = _
  rw [Eval.bind_of_ok hw, Eval.bind_of_ok htruth]
  rfl

/-- The loop `For i = 1 To 3` with this conditional as its body. -/
def leavingLoop (behind : List Value) : CountingLoop where
  name := "i"
  isAscii := CountingLoop.greeting.isAscii
  start := .int 1
  stop := .int 3
  step := .int 1
  body := .tokens (.ofList [.node (leavingBlock behind)])

theorem leavingLoop_reaches {behind : List Value} (h : (leavingBlock behind).isWritable = true) :
    ∃ p, Reaches 4 .exitFor 5 (.node (leavingLoop behind).node) none {}
      ([.block (leavingBlock behind) 3 none behind] ++ [p]) ((leavingLoop behind).entered 1 {}) := by
  have hsmall : ∀ n ∈ [(1 : Int), 3, 1], n.natAbs < Nat.pow 10 2 := by decide
  have hopen := openBlock_leaving 4 0 behind ((leavingLoop behind).resolve?_entered 1 {})
  have hblock := @Reaches.block 4 .exitFor 3 (leavingBlock behind) none _ _ _ _ [] _ behind [] rfl
    hopen rfl .here
  exact ⟨_, CountingLoop.reaches ((leavingLoop behind).bounds_of_small _ {} rfl rfl rfl hsmall)
    (fun n hn ↦ CountingLoop.isWritable_small (hsmall n hn)) (by decide) (fun m ↦ walk_ofList _ m)
    (ensureWritable_node h _) hblock⟩

theorem isWritable_leavingBlock {behind : List Value} (h : allWritable behind = true) :
    (leavingBlock behind).isWritable = true := by
  have hguard := isWritable_isFirst
  simp [leavingBlock, Node.isWritable, branchesWritable, Value.isWritable, Tokens.ofList,
    allWritable, hguard, h]

theorem exit_ends_loop_leaving :
    (leavingLoop []).node.fits .statement = true ∧ (leavingLoop []).node.isEachFree = true ∧
      (∃ p, Reaches 4 .exitFor 5 (.node (leavingLoop []).node) none {}
        ([.block (leavingBlock []) 3 none []] ++ [p]) ((leavingLoop []).entered 1 {})) ∧
      ∃ m, evaluate 4 5 (.node (leavingLoop []).node) none {} = .ok .null m ∧ m.actions = #[] ∧
        m.frame.loops = [] := by
  have hwritable : (leavingBlock []).isWritable = true := isWritable_leavingBlock rfl
  obtain ⟨p, hreaches⟩ := leavingLoop_reaches hwritable
  obtain ⟨-, -, hends⟩ := exit_ends_loop rfl rfl (by decide) (by decide) admitsArguments_none
    empty_admitted (List.forall_mem_singleton.mpr rfl) hreaches
  obtain ⟨name, hends⟩ := hends (List.forall_mem_singleton.mpr rfl)
  refine ⟨by decide, by decide, ⟨p, hreaches⟩, _, hends, ?_, rfl⟩
  rw [CountingLoop.entered, Machine.assign_eq]
  rfl

/-- The message `MsgBox "after"`. -/
def afterwards : Value :=
  .node (.callStatement (.text "MsgBox") (.tokens (.one (.text "after"))))

/-- A message behind the exit, in the same conditional, is still shown. -/
theorem statements_behind_exit_evaluated : ¬ ∀ (limit depth : Nat) (n e : Node) (m m' : Machine)
    (inner : List Pending) (p : Pending), n.repeats = true → e.exitsLoop = true →
    n.fits .statement = true → n.isEachFree = true → m.Admitted True →
    (∀ q ∈ inner, q.isBlock = true) →
    Reaches limit e (depth + 1) (.node n) none m (inner ++ [p]) m' →
    ∃ name, evaluate limit (depth + 1) (.node n) none m = .ok .null
      { m' with frame := { m'.frame with loops := m.frame.loops, withName := name } } := by
  intro h
  have hwritable : (leavingBlock [afterwards]).isWritable = true := isWritable_leavingBlock rfl
  obtain ⟨p, hreaches⟩ := leavingLoop_reaches hwritable
  obtain ⟨name, hends⟩ := h 4 4 _ _ _ _ _ _ rfl rfl (by decide) (by decide) empty_admitted
    (List.forall_mem_singleton.mpr rfl) hreaches
  have hsilent : ((evaluate 4 5 (.node (leavingLoop [afterwards]).node) none).final
      {}).actions.size = 0 := by
    rw [Eval.final_of_ok hends, CountingLoop.entered, Machine.assign_eq]
    rfl
  exact absurd hsilent (by decide +kernel)

end Semantics

end VbaTrace
