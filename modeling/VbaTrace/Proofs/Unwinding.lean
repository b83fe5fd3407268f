import VbaTrace.Proofs.Nesting

/-!
What evaluations leave open. Where an evaluation comes to a statement outside of `For Each` loops,
exactly the loops and the blocks around the statement are open besides what was open before
(`Reaches.nested`). If it fails, so does the evaluation, which leaves them all open
(`Reaches.fails`).
-/

set_option autoImplicit false

namespace VbaTrace

namespace Semantics

variable {free : Bool} {evaluate : Evaluator} {c : Control}

/-! Statements that are reached -/

/-- The block or the loop that has something left to do. -/
def Pending.node : Pending → Node
  | .block n .. | .loop n .. => n

/-- The depth to which its statements are evaluated. -/
def Pending.depth : Pending → Nat
  | .block _ depth .. | .loop _ depth .. => depth

/-- The arguments with which its statements are evaluated. -/
def Pending.args : Pending → Arguments
  | .block _ _ args _ => args
  | .loop .. => none

namespace Pending

def loopCount (ps : List Pending) : Nat :=
  ps.countP fun p ↦ !p.isBlock

/-- The names of the pending blocks, the outermost first. -/
def blockNames (ps : List Pending) : List String :=
  ps.reverse.filterMap fun p ↦ p.node.blockName?

theorem loopCount_concat (ps : List Pending) (p : Pending) :
    loopCount (ps ++ [p]) = loopCount ps + if p.isBlock then 0 else 1 := by
  cases p <;> simp [loopCount, isBlock]

theorem blockNames_concat (ps : List Pending) (p : Pending) :
    blockNames (ps ++ [p]) = p.node.blockName?.toList ++ blockNames ps := by
  rw [blockNames, List.reverse_append, List.reverse_singleton, List.singleton_append,
    List.filterMap_cons]
  cases p.node.blockName? <;> rfl

end Pending

/-- Exactly the pending loops and blocks are open on top of what was there. -/
def NestedIn (ps : List Pending) (c c' : Control) : Prop :=
  ∃ flags, flags.length = Pending.loopCount ps ∧ c.Added flags (Pending.blockNames ps) c'

theorem blockName?_of_repeats {n : Node} (hn : n.repeats = true) : n.blockName? = none := by
  cases n with
  | withBlock => exact nomatch hn
  | _ => rfl

theorem NestedIn.in_loop {ps : List Pending} {c d : Control} {flag : Bool}
    (h : NestedIn ps (c.inLoop flag) d) {p : Pending} (hp : p.isBlock = false)
    (hname : p.node.blockName? = none) : NestedIn (ps ++ [p]) c d := by
  obtain ⟨flags, hlength, hadded⟩ := h
  have hadded' := (c.added_inLoop flag).trans hadded
  refine ⟨flags ++ [flag], ?_, ?_⟩
  · simp [Pending.loopCount_concat, hp, hlength]
  · rw [Pending.blockNames_concat, hname]
    exact hadded'

theorem NestedIn.in_block {ps : List Pending} {c d : Control} {p : Pending}
    (h : NestedIn ps (c.inside p.node) d) (hp : p.isBlock = true)
    (hallows : (nesting free).Allows p.node) : NestedIn (ps ++ [p]) c d := by
  obtain ⟨flags, hlength, hadded⟩ := h
  have hadded' := (c.added_inside hallows).trans hadded
  refine ⟨flags, ?_, ?_⟩
  · simp [Pending.loopCount_concat, hp, hlength]
  · rw [Pending.blockNames_concat]
    rwa [List.append_nil] at hadded'

/-- Where an evaluation comes to a statement outside of loops over items, exactly the loops and the
blocks around it are open; the loop that was the innermost before may have been left. -/
theorem Reaches.nested {limit depth : Nat} {e : Node} {s : Value} {args : Arguments}
    {m m' : Machine} {ps : List Pending} (h : Reaches limit e depth s args m ps m')
    (hs : (nesting true).Obeys s) (hargs : AdmitsArguments True args) (hm : m.Admitted True) :
    (∀ p ∈ ps, p.node.isEach = false) ∧
      ∃ base, m.frame.control.Kept true base ∧ NestedIn ps base m'.frame.control := by
  have heach {n : Node} (hn : (nesting true).Allows n) : n.isEach = false :=
    Bool.eq_false_of_not_eq_true fun h ↦ nomatch hn.1 h
  induction h with
  | here => exact ⟨nofun, _, .refl true _, [], rfl, .refl _⟩
  | @block depth n args m m₁ m₂ m' front s rest ps hn hopen hfront _ ih =>
    obtain ⟨hm₂, ⟨inner, hopens, hkept⟩, hs', -⟩ := obeyed_into_block hs hargs hm hopen hfront
    obtain ⟨hps, base, hbase, hnested⟩ := ih hs' (admitsArguments_passedOn hargs n) hm₂
    refine ⟨List.forall_mem_append.mpr ⟨hps, List.forall_mem_singleton.mpr (heach hs.node)⟩, ?_⟩
    have hinside : (m.frame.control.inside n).Kept true m₂.frame.control :=
      hopens.control_eq hs.node ▸ hkept
    rcases (hinside.trans hbase).eq with rfl | rfl
    · exact ⟨_, .refl true _, hnested.in_block rfl hs.node⟩
    · rw [Control.lowered_inside] at hnested
      exact ⟨_, m.frame.control.kept_lowered true, hnested.in_block rfl hs.node⟩
  | @loop depth k rounds n args m m₁ m₂ m₃ m₄ m' plan front s rest ps hn henter hbegins _ hfront
      hwritable _ ih =>
    obtain ⟨hm₁, hflow, hplan⟩ := (enters_loop (evaluates True limit depth) hs _).ok hm rfl henter
    obtain ⟨hm₄, hkept, hs', -⟩ := obeyed_into_loop hplan hm₁ hbegins hfront hwritable
    obtain ⟨hps, base, hbase, hnested⟩ := ih hs' admitsArguments_none hm₄
    rw [hflow] at hkept
    obtain ⟨flag, rfl⟩ := (Control.Kept.trans hkept hbase).eq_inLoop
    exact ⟨List.forall_mem_append.mpr ⟨hps, List.forall_mem_singleton.mpr (heach hs.node)⟩, _,
      .refl true _, hnested.in_loop rfl (blockName?_of_repeats hn)⟩

/-! Statements that fail -/

theorem evalBlock_of_error {args : Arguments} {front rest : List Value} {s : Value}
    {m m₁ m₂ : Machine} {f : Fault} (hfront : evalBlock evaluate args front m = .ok () m₁)
    (hs : evaluate s args m₁ = .error f m₂) :
    evalBlock evaluate args (front ++ s :: rest) m = .error f m₂ := by
  rw [evalBlock_append, Eval.bind_of_ok hfront, evalBlock, Eval.bind_of_error hs]

/-- The rounds of a loop end where a statement of the body fails. -/
theorem LoopPlan.run_of_error {p : LoopPlan} {k : Nat} {m m₁ m₂ m₃ m₄ : Machine}
    {front rest : List Value} {s : Value} {f : Fault}
    (hbegins : p.Begins evaluate 0 k m (front ++ s :: rest) m₁)
    (hfront : evalBody evaluate front m₁ = .ok false m₂)
    (hwritable : ensureWritable s m₂ = .ok () m₃)
    (hs : evaluate s none m₃ = .error f m₄) (rounds : Nat) :
    p.run evaluate (k + rounds + 1) 0 m = .error f m₄ := by
  have hbody : evalBody evaluate (front ++ s :: rest) m₁ = .error f m₄ := by
    rw [evalBody_append hfront, evalBody_cons hwritable, Eval.bind_of_error hs]
  rw [run_of_begins hbegins, Eval.bind_of_error hbody]

/-- The depth and the arguments with which a statement is evaluated for which `ps` is pending. -/
def Pending.place (ps : List Pending) (depth : Nat) (args : Arguments) : Nat × Arguments :=
  ps.head?.elim (depth, args) fun p ↦ (p.depth, p.args)

theorem Pending.place_concat (ps : List Pending) (p : Pending) (depth : Nat) (args : Arguments) :
    place (ps ++ [p]) depth args = place ps p.depth p.args := by
  cases ps <;> rfl

theorem Reaches.admits_place {limit depth : Nat} {e : Node} {s : Value} {args : Arguments}
    {m m' : Machine} {ps : List Pending} (h : Reaches limit e depth s args m ps m')
    (hargs : AdmitsArguments True args) : AdmitsArguments True (Pending.place ps depth args).2 := by
  induction h with
  | here => exact hargs
  | @block _ n args m m₁ m₂ m' front s rest ps _ _ _ _ ih =>
    rw [Pending.place_concat]
    exact ih (admitsArguments_passedOn hargs n)
  | loop _ _ _ _ _ _ _ ih =>
    rw [Pending.place_concat]
    exact ih admitsArguments_none

/-- A statement without statements of its own leaves no trace in the control of its frame when it
fails. -/
theorem control_of_error {limit depth : Nat} {e : Node} {args : Arguments} {m m' : Machine}
    {f : Fault} (he : e.fits .statement = true) (hblock : e.isBlock = false)
    (hloop : e.repeats = false) (hargs : AdmitsArguments True args) (hm : m.Admitted True)
    (h : Semantics.evaluate limit depth (.node e) args m = .error f m') :
    m'.frame.control = m.frame.control := by
  cases depth with
  | zero =>
    cases h
    rfl
  | succ depth =>
    obtain ⟨-, hflow⟩ := (leads_single (evaluates True limit depth) limit he hblock hloop hargs).error
      hm rfl h
    exact congrArg Flow.control hflow

/-- Where the inner statement fails, the outer one fails at once, and nothing that is pending is
done. -/
theorem Reaches.fails {limit depth : Nat} {e : Node} {s : Value} {args : Arguments}
    {m m' m'' : Machine} {ps : List Pending} {f : Fault} (h : Reaches limit e depth s args m ps m')
    (hps : ∀ p ∈ ps, p.node.isEach = false)
    (he : Semantics.evaluate limit (Pending.place ps depth args).1 (.node e)
      (Pending.place ps depth args).2 m' = .error f m'') :
    Semantics.evaluate limit depth s args m = .error f m'' := by
  induction h with
  | here => exact he
  | @block depth n args m m₁ m₂ m' front s rest ps hn hopen hfront _ ih =>
    rw [Pending.place_concat] at he
    have hs := ih (fun p hp ↦ hps p (List.mem_append_left _ hp)) he
    change evalNode (Semantics.evaluate limit depth) limit n args m = _
    rw [evalNode_block _ _ hn, Eval.bind_of_ok hopen,
      Eval.bind_of_error (evalBlock_of_error hfront hs)]
  | @loop depth k rounds n args m m₁ m₂ m₃ m₄ m' plan front s rest ps hn henter hbegins hlimit
      hfront hwritable _ ih =>
    rw [Pending.place_concat] at he
    obtain ⟨hps', hp⟩ := List.forall_mem_append.mp hps
    have hrun := LoopPlan.run_of_error hbegins hfront hwritable (ih hps' he) rounds
    change evalNode (Semantics.evaluate limit depth) limit n args m = _
    have heach : n.isEach = false := hp _ List.mem_cons_self
    rw [evalNode_loop _ _ hn, Eval.bind_of_ok henter, shielded_of_not_each heach]
    exact Eval.bind_of_error (hlimit ▸ hrun) _

end Semantics

end VbaTrace
