import VbaTrace.Proofs.Disciplines

/-!
How the flags of a frame fall while statements are evaluated. The flag that a procedure has been left
is raised by its exits, and no statement takes it back, also where an evaluation fails. The flag of
the innermost loop only falls, and a loop restores the flags around it, when the evaluation ends
normally and there is no `For Each` loop among the statements: such a loop hides a failure, so that
the loops inside of it may not have been popped. This is a discipline (`falling`), so it holds of
whole evaluations, also up to a statement that an evaluation reaches through blocks
(`Reaches.falls`), and for what is then left to do (`Pending.keeps_resumeAll`).
-/

set_option autoImplicit false

namespace VbaTrace

/-! Trees without loops over items -/

mutual

/-- There is no `For Each` loop among the statements. Nothing is asked of the bodies of procedures,
which run in frames of their own. -/
def Value.isEachFree : Value → Bool
  | .list vs => allEachFree vs
  | .tokens t => t.isEachFree
  | .node n => n.isEachFree
  | _ => true

def allEachFree : List Value → Bool
  | [] => true
  | v :: vs => v.isEachFree && allEachFree vs

def Tokens.isEachFree : Tokens → Bool
  | .mk items _ => allEachFree items

def Branch.isEachFree : Branch → Bool
  | .mk guard body => guard.isEachFree && body.isEachFree

def branchesEachFree : List Branch → Bool
  | [] => true
  | b :: bs => b.isEachFree && branchesEachFree bs

def Node.isEachFree : Node → Bool
  | .forEach .. => false
  | .forLoop _ _ _ _ body | .whileLoop _ _ body | .doLoop _ _ body | .withBlock _ body =>
    body.isEachFree
  | .select subject cases => subject.isEachFree && cases.isEachFree
  | .selectCase guard body => guard.isEachFree && body.isEachFree
  | .conditional _ branches => branchesEachFree branches
  | _ => true

end

theorem allEachFree_iff (vs : List Value) :
    allEachFree vs = true ↔ ∀ v ∈ vs, v.isEachFree = true := by
  induction vs with
  | nil => simp [allEachFree]
  | cons v vs ih => simp [allEachFree, ih]

theorem branchesEachFree_iff (bs : List Branch) :
    branchesEachFree bs = true ↔ ∀ b ∈ bs, b.isEachFree = true := by
  induction bs with
  | nil => simp [branchesEachFree]
  | cons b bs ih => simp [branchesEachFree, ih]

theorem Value.PartOf.isEachFree {v w : Value} (h : w.PartOf v) (hv : v.isEachFree = true) :
    w.isEachFree = true := by
  have hbranch {bs : List Branch} {guard body : Value} (hbs : branchesEachFree bs = true)
      (hb : .mk guard body ∈ bs) : guard.isEachFree = true ∧ body.isEachFree = true := by
    simpa [Branch.isEachFree] using (branchesEachFree_iff bs).mp hbs _ hb
  cases h with
  | item hw | token hw => exact (allEachFree_iff _).mp hv w hw
  | guard hb => exact (hbranch hv hb).1
  | body hb => exact (hbranch hv hb).2
  | _ => simp_all [Value.isEachFree, Node.isEachFree]

/-! The discipline -/

/-- Of the flags in `loops` at most that of the innermost loop has fallen. -/
def Lowers (loops now : List Bool) : Prop :=
  now = loops ∨ now = lowerFirst loops

theorem Lowers.trans {loops middle now : List Bool} (hfirst : Lowers loops middle)
    (hlast : Lowers middle now) : Lowers loops now := by
  rcases hfirst with rfl | rfl
  · exact hlast
  · rw [Lowers, lowerFirst_lowerFirst, or_self] at hlast
    exact .inr hlast

/-- A procedure that was left stays left. At most the innermost loop is left, if `free` asks for
statements without loops over items. -/
def falling (free : Prop) : Discipline where
  Allows n := free → n.isEach = false
  Ends f g := (f.exited = true → g.exited = true) ∧ (free → Lowers f.control.loops g.control.loops)
  Restores f g :=
    (f.exited = true → g.exited = true) ∧ (free → g.control.loops = f.control.loops)
  Fails f g := f.exited = true → g.exited = true
  allows {n} h _ := by
    cases n with
    | forEach => exact Bool.noConfusion h
    | _ => rfl
  refl _ := ⟨id, fun _ ↦ .inl rfl⟩
  trans hfirst hlast := ⟨hlast.1 ∘ hfirst.1, fun hfree ↦ (hfirst.2 hfree).trans (hlast.2 hfree)⟩
  fails_refl _ := id
  trans_fails hfirst hlast := hlast ∘ hfirst.1
  lower _ := ⟨id, fun _ ↦ .inr rfl⟩
  leave _ := ⟨fun _ ↦ rfl, fun _ ↦ .inl rfl⟩
  restores h := ⟨h.1, fun hfree ↦ .inl (h.2 hfree)⟩
  pop h := ⟨h.1, fun hfree ↦ by
    rcases h.2 hfree with h | h <;> exact congrArg List.tail h⟩
  in_loop h := h
  hides hn heach h := ⟨h, fun hfree ↦ by simp [hn hfree] at heach⟩
  close _ _ h := h
  in_block _ _ h := h

theorem falling_obeys {free : Prop} {v : Value} (hfits : v.fits .statement = true)
    (heach : free → v.isEachFree = true) : (falling free).Obeys v := by
  refine .of_kind (K := fun v ↦ free → v.isEachFree = true) (fun hv h hfree ↦ h.isEachFree (hv hfree))
    (fun n hn hfree ↦ ?_) hfits heach
  cases n with
  | forEach => exact Bool.noConfusion (hn hfree)
  | _ => rfl

/-! Statements that are reached, and what is then left to do -/

namespace Semantics

variable {free : Prop} {limit depth : Nat} {m m' : Machine} {ps : List Pending}

/-- On the way to a statement through blocks, flags only fall. -/
theorem Reaches.falls {e : Node} {s : Value} {args : Arguments}
    (h : Reaches limit e depth s args m ps m') (hs : (falling free).Obeys s)
    (hargs : AdmitsArguments True args) (hm : m.Admitted True)
    (hps : ∀ p ∈ ps, p.isBlock = true) :
    (falling free).Ends m.frame.flow m'.frame.flow := by
  induction h with
  | here => exact (falling free).refl _
  | @block depth n args m m₁ m₂ m' front s rest ps _ hopen hfront _ ih =>
    obtain ⟨hm₂, ⟨inner, hopens, hends⟩, hs', -⟩ := obeyed_into_block hs hargs hm hopen hfront
    have hinner : (falling free).Ends m.frame.flow inner := by
      cases n with
      | withBlock =>
        obtain ⟨name, -, rfl⟩ := hopens
        exact (falling free).refl m.frame.flow
      | _ =>
        cases hopens
        exact (falling free).refl _
    exact (falling free).trans hinner ((falling free).trans hends
      (ih hs' (admitsArguments_passedOn hargs n) hm₂ (List.forall_mem_append.mp hps).1))
  | loop => exact Bool.noConfusion (hps _ (List.mem_append_right _ (List.mem_singleton.mpr rfl)))

theorem keeps_closeBlock (n : Node) : (falling free).Keeps (closeBlock n) fun _ ↦ True := by
  intro f
  unfold closeBlock
  split
  · refine .modifyFrame ?_ fun _ ↦ rfl
    rintro fr rfl
    exact ⟨(falling free).refl fr.flow, True.intro⟩
  · exact .pure ⟨(falling free).refl f, True.intro⟩

/-- To go on keeps a procedure left, and lowers at most the flag of the innermost loop where only
blocks go on. -/
theorem Pending.keeps_resume {p : Pending} (hp : p.Obeys (falling free))
    (hblock : free → p.isBlock = true) {x : Eval Unit} (hx : (falling free).Keeps x fun _ ↦ True) :
    (falling free).Keeps (p.resume limit x) fun _ ↦ True := by
  cases p with
  | block n depth args rest =>
    refine hx.bind fun _ _ ↦ ?_
    exact (keeps_evalBlock (rules _ limit depth) hp.1 hp.2).bind fun _ _ ↦ keeps_closeBlock n
  | loop n depth plan rounds place rest =>
    obtain ⟨hplan, hrest⟩ := hp
    have hr := rules (falling free) limit depth
    have hnot : ¬ free := fun hfree ↦ Bool.noConfusion (hblock hfree)
    have hends {f g : Flow} (h : (falling free).Fails f g) : (falling free).Ends f g ∧ True :=
      ⟨⟨h, fun hfree ↦ (hnot hfree).elim⟩, True.intro⟩
    have hbody : (falling free).Keeps (restOfBody (evaluate limit depth) rest) fun _ ↦ True := by
      refine (Discipline.Keeps.of_operand ensures_loopRuns).bind fun runs _ ↦ ?_
      split
      · exact keeps_evalBody hr hrest
      · exact .pure True.intro
    have hgoes : (falling free).Keeps (do
        x
        plan.after (evaluate limit depth) rounds place
          (← restOfBody (evaluate limit depth) rest)) fun _ ↦ True :=
      hx.bind fun _ _ ↦ hbody.bind fun done _ ↦
        keeps_after hplan rounds place (keeps_run hr hplan rounds place) done
    refine Discipline.Keeps.bind (R := fun _ ↦ True) (fun f ↦ ?_) fun _ _ f ↦ ?_
    · unfold shielded
      split
      · exact .hide (hgoes f) fun _ ↦ hends
      · exact hgoes f
    · rw [popLoop_eq]
      refine (leads_flagging _).mono (fun _ g hg ↦ ?_) fun _ h ↦ h ▸ id
      obtain ⟨_, _, -, -, rfl⟩ := hg
      exact hends id

theorem Pending.keeps_resumeAll (hps : ∀ p ∈ ps, p.Obeys (falling free))
    (hblocks : free → ∀ p ∈ ps, p.isBlock = true) {x : Eval Unit}
    (hx : (falling free).Keeps x fun _ ↦ True) :
    (falling free).Keeps (resumeAll limit ps x) fun _ ↦ True := by
  induction ps generalizing x with
  | nil => exact hx
  | cons p ps ih =>
    obtain ⟨hp, hps'⟩ := List.forall_mem_cons.mp hps
    refine ih hps' (fun hfree q hq ↦ hblocks hfree q (List.mem_cons_of_mem p hq)) ?_
    exact keeps_resume hp (fun hfree ↦ hblocks hfree p List.mem_cons_self) hx

end Semantics

end VbaTrace
