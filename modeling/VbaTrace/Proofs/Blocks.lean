import VbaTrace.Proofs.Disciplines
import VbaTrace.Proofs.Sessions

/-!
Block discipline. Loops push and pop a flag, an exit lowers the flag of the innermost loop, and a
`With` block adds its name to that of the blocks around it and cuts it off again at the last dot.
When no `For Each` loop and no name with a dot is among the statements, what was pushed is popped
again: a statement that ends normally leaves the `With` blocks and the loops as they were, up to the
flag of the innermost loop (`Control.Matches`), and a loop leaves its surroundings exactly as they
were.
-/

set_option autoImplicit false

namespace VbaTrace

/-! The name of a `With` block -/

namespace Text

theorem isSome_findLast? (pattern cs : List Char) :
    (findLast? pattern cs).isSome = (find? pattern cs).isSome := by
  induction cs with
  | nil => rfl
  | cons c cs ih =>
    rw [findLast?, find?]
    cases hlast : findLast? pattern cs with
    | some n =>
      rw [hlast] at ih
      split_ifs
      · rfl
      · simpa using ih
    | none =>
      rw [hlast] at ih
      split_ifs
      · rfl
      · simpa using ih

theorem findLast?_eq_none_iff {pattern cs : List Char} :
    findLast? pattern cs = none ↔ occursIn pattern cs = false := by
  rw [occursIn, ← isSome_findLast?]
  simp

/-- A match stays the last one, whatever stands before. -/
theorem findLast?_append {pattern cs : List Char} {n : Nat} (h : findLast? pattern cs = some n)
    (front : List Char) : findLast? pattern (front ++ cs) = some (front.length + n) := by
  induction front with
  | nil => simpa using h
  | cons c front ih =>
    rw [List.cons_append, findLast?, ih, List.length_cons]
    simp only [Option.some.injEq]
    omega

end Text

namespace Semantics

/-- The last dot of a joined name is the one before a name that has none. -/
theorem findLast?_joined (outer : String) {name : String} (h : Text.contains "." name = false) :
    Text.findLast? ".".toList (outer ++ "." ++ name).toList = some outer.toList.length := by
  have hname : Text.findLast? ['.'] name.toList = none := Text.findLast?_eq_none_iff.mpr h
  have hdot : Text.findLast? ['.'] ('.' :: name.toList) = some 0 := by
    rw [Text.findLast?, hname]
    rfl
  simpa using Text.findLast?_append hdot outer.toList

/-- Leaving a `With` block undoes entering it, when its name has no dot. -/
theorem leaveWith_enterWith (outer : String) {name : String} (h : Text.contains "." name = false) :
    leaveWith (enterWith outer name) = outer := by
  unfold enterWith
  split_ifs with hempty
  · rw [leaveWith, h]
    exact (String.isEmpty_iff.mp hempty).symm
  · have hlast := findLast?_joined outer h
    have hcontains : Text.contains "." (outer ++ "." ++ name) = true := by
      rw [Text.contains, Text.occursIn, ← Text.isSome_findLast?, hlast]
      rfl
    rw [leaveWith, hcontains, if_pos rfl, Text.beforeLast, hlast]
    simp

end Semantics

/-! Balanced trees -/

/-- However the lists in it are filled, the value is displayed without a dot. -/
def Value.Undotted (v : Value) : Prop :=
  ∀ (h : Heap) (s : String), (h.resolve v).written = .ok s → Text.contains "." s = false

mutual

/-- There is no `For Each` loop among the statements, and the names of their `With` blocks have no
dots. Nothing is asked of the bodies of procedures, which run in frames of their own. -/
def Value.Balanced : Value → Prop
  | .list vs => AllBalanced vs
  | .tokens t => t.Balanced
  | .node n => n.Balanced
  | _ => True

def AllBalanced : List Value → Prop
  | [] => True
  | v :: vs => v.Balanced ∧ AllBalanced vs

def Tokens.Balanced : Tokens → Prop
  | .mk items _ => AllBalanced items

def Branch.Balanced : Branch → Prop
  | .mk guard body => guard.Balanced ∧ body.Balanced

def BranchesBalanced : List Branch → Prop
  | [] => True
  | b :: bs => b.Balanced ∧ BranchesBalanced bs

def Node.Balanced : Node → Prop
  | .forEach .. => False
  | .withBlock subject body => subject.Undotted ∧ body.Balanced
  | .forLoop _ _ _ _ body | .whileLoop _ _ body | .doLoop _ _ body => body.Balanced
  | .select subject cases => subject.Balanced ∧ cases.Balanced
  | .selectCase guard body => guard.Balanced ∧ body.Balanced
  | .conditional _ branches => BranchesBalanced branches
  | _ => True

end

theorem allBalanced_iff (vs : List Value) : AllBalanced vs ↔ ∀ v ∈ vs, v.Balanced := by
  induction vs with
  | nil => simp [AllBalanced]
  | cons v vs ih => simp [AllBalanced, ih]

theorem branchesBalanced_iff (bs : List Branch) :
    BranchesBalanced bs ↔ ∀ b ∈ bs, b.Balanced := by
  induction bs with
  | nil => simp [BranchesBalanced]
  | cons b bs ih => simp [BranchesBalanced, ih]

theorem Value.PartOf.balanced {v w : Value} (h : w.PartOf v) (hv : v.Balanced) : w.Balanced := by
  have hbranch {bs : List Branch} {guard body : Value} (hbs : BranchesBalanced bs)
      (hb : .mk guard body ∈ bs) : guard.Balanced ∧ body.Balanced := by
    simpa [Branch.Balanced] using (branchesBalanced_iff bs).mp hbs _ hb
  cases h with
  | item hw | token hw => exact (allBalanced_iff _).mp hv w hw
  | guard hb => exact (hbranch hv hb).1
  | body hb => exact (hbranch hv hb).2
  | _ => simp_all [Value.Balanced, Node.Balanced]

/-! The discipline -/

/-- The same blocks and the same loops; only the flag of the innermost loop may differ. -/
structure Control.Matches (c c' : Control) : Prop where
  withName : c'.withName = c.withName
  length : c'.loops.length = c.loops.length
  tail : c'.loops.tail = c.loops.tail

/-- Statements match what they find, and loops restore it. -/
def balancing : Discipline where
  Allows n := n.isEach = false ∧ ∀ subject body, n = .withBlock subject body → subject.Undotted
  Ends f g := f.control.Matches g.control
  Restores f g := g.control = f.control
  Fails _ _ := True
  allows {n} h := by
    cases n with
    | forEach | withBlock => exact Bool.noConfusion h
    | _ => exact ⟨rfl, nofun⟩
  refl _ := ⟨rfl, rfl, rfl⟩
  trans hfirst hlast := ⟨hlast.withName.trans hfirst.withName, hlast.length.trans hfirst.length,
    hlast.tail.trans hfirst.tail⟩
  fails_refl _ := True.intro
  trans_fails _ _ := True.intro
  lower f := by
    cases hloops : f.control.loops <;>
      exact ⟨rfl, by simp [Flow.under, Control.lowered, lowerFirst, hloops],
        by simp [Flow.under, Control.lowered, lowerFirst, hloops]⟩
  leave _ := ⟨rfl, rfl, rfl⟩
  restores h := h ▸ ⟨rfl, rfl, rfl⟩
  pop {f g} h := by
    change Control.mk g.control.loops.tail g.control.withName = f.control
    rw [h.tail, h.withName]
    rfl
  in_loop _ := True.intro
  hides hn heach _ := by simp [hn.1] at heach
  close {subject body name f g} hn hname h := by
    obtain ⟨heap, hwritten⟩ := hname
    refine ⟨?_, h.length, h.tail⟩
    calc Semantics.leaveWith g.control.withName
        = Semantics.leaveWith (Semantics.enterWith f.control.withName name) :=
          congrArg Semantics.leaveWith h.withName
      _ = f.control.withName :=
        Semantics.leaveWith_enterWith _ (hn.2 subject body rfl heap name hwritten)
  in_block _ _ _ := True.intro

theorem balancing_obeys {v : Value} (hfits : v.fits .statement = true) (hv : v.Balanced) :
    balancing.Obeys v := by
  refine .of_kind (K := Value.Balanced) (fun hv h ↦ h.balanced hv) (fun n hn ↦ ?_) hfits hv
  cases n with
  | forEach => exact hn.elim
  | withBlock => exact ⟨rfl, fun _ _ h ↦ by cases h; exact hn.1⟩
  | _ => exact ⟨rfl, nofun⟩

/-! Whole evaluations -/

namespace Semantics

/-- A counting loop or a loop with a guard. -/
def isLoop : Value → Bool
  | .node (.forLoop ..) | .node (.whileLoop ..) | .node (.doLoop ..) => true
  | _ => false

/-- A statement that ends normally leaves the `With` blocks and the running loops as it found them,
up to the flag of the innermost loop, and a loop leaves that flag as well. That variables hold no
statements is kept, and is so in every session. -/
theorem evaluate_restores_blocks (rounds depth : Nat) {s : Value} (hfits : s.fits .statement = true)
    (hbalanced : s.Balanced) {args : Arguments} (hargs : AdmitsArguments True args) {m m' : Machine}
    (hm : m.Admitted True) {v : Value} (h : Semantics.evaluate rounds depth s args m = .ok v m') :
    m'.frame.withName = m.frame.withName ∧
      m'.frame.loops.length = m.frame.loops.length ∧
      m'.frame.loops.tail = m.frame.loops.tail ∧
      (isLoop s = true → m'.frame.loops = m.frame.loops) ∧
      m'.Admitted True ∧ ∀ e : Engine, e.Reached → e.machine.Admitted True := by
  have hs := balancing_obeys hfits hbalanced
  obtain ⟨hm', hmatches, -⟩ := (rules balancing rounds depth s args hs hargs _).ok hm rfl h
  refine ⟨hmatches.withName, hmatches.length, hmatches.tail, fun hloop ↦ ?_, hm',
    fun e he ↦ he.admitted⟩
  cases depth with
  | zero => exact nomatch h
  | succ depth =>
    cases s with
    | node n =>
      have hrepeats : n.repeats = true := by
        cases n with
        | forLoop | whileLoop | doLoop => rfl
        | _ => exact Bool.noConfusion hloop
      obtain ⟨-, hcontrol, -⟩ := (leads_loop (evaluates True rounds depth)
        (rules balancing rounds depth) rounds hrepeats hs args).ok hm rfl h
      exact congrArg Control.loops hcontrol
    | _ => exact Bool.noConfusion hloop

/-- A loop that is left out of a conditional inside a `With` block. -/
def exitingLoop : Value :=
  .node (.forLoop (.text "i") (.int 1) (.int 3) (.int 1) (.list [
    .node (.withBlock (.text "doc") (.list [
      .node (.conditional false [
        .mk (.node (.comparison (.node (.simpleName "i")) (.text "=") (.int 2)))
          (.list [.node .exitFor])])]))]))

/-- A machine inside two loops and two `With` blocks. -/
def insideBlocks : Machine :=
  { frame := { loops := [false, true], withName := "app.books" } }

theorem insideBlocks_admitted : insideBlocks.Admitted True :=
  .of_tables (.of_entries (by decide)) (.of_entries (by decide)) (.of_entries (by decide))
    Heap.stocked_empty rfl rfl

theorem exitingLoop_balanced : exitingLoop.Balanced := by
  have hname : (Value.text "doc").Undotted := by
    intro h s hs
    cases hs
    change Text.contains "." "doc" = false
    decide
  simpa [exitingLoop, Value.Balanced, Node.Balanced, AllBalanced, BranchesBalanced, Branch.Balanced]
    using hname

theorem exitingLoop_restores_blocks :
    exitingLoop.fits .statement = true ∧ exitingLoop.Balanced ∧ AdmitsArguments True none ∧
      insideBlocks.Admitted True ∧ ∃ v m', Semantics.run exitingLoop none insideBlocks = .ok v m' ∧
        m'.frame.withName = "app.books" ∧ m'.frame.loops = [false, true] := by
  refine ⟨by decide, exitingLoop_balanced, admitsArguments_none, insideBlocks_admitted, ?_⟩
  have hends : (match Semantics.run exitingLoop none insideBlocks with
      | .ok .. => true
      | .error .. => false) = true := by decide +kernel
  cases hrun : Semantics.run exitingLoop none insideBlocks with
  | ok v m' =>
    obtain ⟨hname, -, -, hloops, -, -⟩ := evaluate_restores_blocks roundLimit depthLimit (by decide)
      exitingLoop_balanced admitsArguments_none insideBlocks_admitted hrun
    exact ⟨v, m', rfl, hname, hloops rfl⟩
  | error f m' =>
    rw [hrun] at hends
    exact nomatch hends

end Semantics

end VbaTrace
