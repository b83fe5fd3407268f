import VbaTrace.Proofs.CharacterLoops
import VbaTrace.Proofs.EntryPoints
import VbaTrace.Proofs.LoopRounds

/-!
The rounds of counting loops. A loop whose body goes on (`Passes`) evaluates it once for each number
of an arithmetic progression: `Rounds` is the sequence of its rounds, each of which finds its number
in the variable, and `roundCount` says how many there are. A loop ends by itself behind the last of
them, and the variable is then one step further (`forRounds_of_passes`).

The start, the end and the step are written to the log before the first round. A loop fails there if
one of them has more digits than can be written.
-/

set_option autoImplicit false

namespace VbaTrace

/-! An assigned name is found, inside `With` blocks of any name -/

namespace Text

theorem isCased_toLower {c : Char} (hc : c.toNat < 128) : isCased c.toLower = isCased c :=
  of_ascii (P := fun c ↦ isCased c.toLower = isCased c) (by decide +kernel) hc

theorem isCaseIgnorable_toLower {c : Char} (hc : c.toNat < 128) :
    isCaseIgnorable c.toLower = isCaseIgnorable c :=
  of_ascii (P := fun c ↦ isCaseIgnorable c.toLower = isCaseIgnorable c) (by decide +kernel) hc

theorem meetsCased_cons (c : Char) (cs : List Char) :
    meetsCased (c :: cs) = if isCaseIgnorable c then meetsCased cs else isCased c := by
  unfold meetsCased
  rw [List.dropWhile_cons]
  by_cases hc : isCaseIgnorable c = true <;> simp [hc]

theorem meetsCased_append_lower (front : List Char) {cs : List Char}
    (hcs : ∀ c ∈ cs, c.toNat < 128) :
    meetsCased (front ++ cs.map Char.toLower) = meetsCased (front ++ cs) := by
  induction front with
  | nil =>
    induction cs with
    | nil => rfl
    | cons c cs ih =>
      obtain ⟨hc, hcs⟩ := List.forall_mem_cons.mp hcs
      have hrest := ih hcs
      rw [List.nil_append, List.nil_append] at hrest ⊢
      rw [List.map_cons, meetsCased_cons, meetsCased_cons, isCaseIgnorable_toLower hc,
        isCased_toLower hc, hrest]
  | cons c front ih => rw [List.cons_append, List.cons_append, meetsCased_cons, meetsCased_cons, ih]

theorem lowerFrom_append_lower (before front : List Char) {cs : List Char}
    (hcs : ∀ c ∈ cs, c.toNat < 128) :
    lowerFrom before (front ++ cs.map Char.toLower) = lowerFrom before (front ++ cs) := by
  induction front generalizing before with
  | nil =>
    have hlower : ∀ c ∈ cs.map Char.toLower, c.toNat < 128 := by
      intro c hc
      obtain ⟨d, hd, rfl⟩ := List.mem_map.mp hc
      exact toNat_toLower_lt (hcs d hd)
    have htwice : (cs.map Char.toLower).map Char.toLower = cs.map Char.toLower := by
      rw [List.map_map]
      exact List.map_congr_left fun c hc ↦ toLower_toLower (hcs c hc)
    have hleft := lowerFrom_append_of_ascii hlower before []
    have hright := lowerFrom_append_of_ascii hcs before []
    simp only [List.append_nil, lowerFrom] at hleft hright
    rw [List.nil_append, List.nil_append, hleft, hright, htwice]
  | cons c front ih =>
    have hchar : lowerChar before c (front ++ cs.map Char.toLower) =
        lowerChar before c (front ++ cs) := by
      unfold lowerChar
      rw [meetsCased_append_lower front hcs]
    rw [List.cons_append, List.cons_append, lowerFrom, lowerFrom, hchar, ih]

theorem lower_append_lower (front : String) {s : String} (hs : isAscii s = true) :
    lower (front ++ lower s) = lower (front ++ s) := by
  rw [← String.toList_inj, toList_lower, toList_lower, String.toList_append, String.toList_append,
    toList_lower_of_isAscii hs]
  exact lowerFrom_append_lower [] front.toList (isAscii_iff.mp hs)

end Text

theorem Machine.resolve?_assign (m : Machine) {name : String} (hname : Text.isAscii name = true)
    (v : Value) (type : Option Value) : (m.assign name v type).resolve? name = some v := by
  rw [resolve?, assign_withName]
  by_cases hblock : m.frame.withName = ""
  · have hbare : (m.assign name v type).lookup name = some v := by
      rw [lookup_assign]
      simp
    rw [hblock, String.empty_append, hbare, Option.some_or]
  · have hlonger : (m.assign name v type).lookup (m.frame.withName ++ name) = some v := by
      rw [lookup_assign, blockKey, Text.lower_append_lower _ hname]
      simp [hblock]
    rw [hlonger, Option.some_or]

namespace Semantics

/-! How many rounds there are -/

/-- How many of the numbers `first`, `first + step`, … do not exceed `last`. -/
def roundCount (first last step : Int) : Nat :=
  if last < first then 0 else ((last - first) / step + 1).toNat

theorem roundCount_of_lt {first last step : Int} (h : last < first) :
    roundCount first last step = 0 :=
  if_pos h

theorem roundCount_of_le {first last step : Int} (hstep : 1 ≤ step) (h : first ≤ last) :
    roundCount first last step = roundCount (first + step) last step + 1 := by
  have hfirst : ¬ last < first := by omega
  unfold roundCount
  rw [if_neg hfirst]
  by_cases hnext : last < first + step
  · have hnone : (last - first) / step = 0 := Int.ediv_eq_zero_of_lt (by omega) (by omega)
    rw [if_pos hnext, hnone]
    rfl
  · have hshift : last - first = last - (first + step) + 1 * step := by omega
    have hmore : (last - first) / step = (last - (first + step)) / step + 1 := by
      rw [hshift, Int.add_mul_ediv_right _ _ (by omega)]
    have hpositive : 0 ≤ (last - (first + step)) / step := Int.ediv_nonneg (by omega) (by omega)
    rw [if_neg hnext, hmore]
    omega

/-- The last number of a loop under a bound; a bound that is not positive does not count. -/
def capped (bound last : Int) : Int :=
  if 0 < bound then min last bound else last

theorem loopStop_int (bound last : Int) : loopStop bound (.int last) = capped bound last := by
  change (if 0 < bound && bound < last then bound else last) = capped bound last
  unfold capped
  by_cases hbound : 0 < bound
  · by_cases hlast : bound < last
    · simp [hbound, hlast, Int.min_eq_right (Int.le_of_lt hlast)]
    · simp [hbound, hlast, Int.min_eq_left (Int.not_lt.mp hlast)]
  · simp [hbound]

/-! Rounds -/

/-- The innermost loop of the machine has not been left. -/
def IsLooping (m : Machine) : Prop :=
  m.frame.loops.head? = some true

/-- In every machine of a class, inside a loop that runs, with a number in the variable, the statement
returns. It leaves a machine of the class with the same number in the variable, and does not leave the
loop. The statement is written to the log before. -/
structure Passes (evaluate : Evaluator) (name : String) (Class : Machine → Prop) (s : Value) :
    Prop where
  writable : s.isWritable = true
  returns : ∀ m i, Class m → IsLooping m → m.resolve? name = some (.int i) →
    ∃ v m', evaluate s none m = .ok v m' ∧ Class m' ∧ IsLooping m' ∧
      m'.resolve? name = some (.int i)

/-- Where a loop goes on to a next round, it stays in the class when it stores the number for that
round. -/
def GoesOnWithin (name : String) (stop step : Int) (Class : Machine → Prop) : Prop :=
  ∀ m i, Class m → m.resolve? name = some (.int i) → i + step ≤ stop →
    Decimal.isWritable (i + step) = true → Class (m.assign name (.int (i + step)) none)

/-- Some rounds of a counting loop, from the one for a given number on. A round finds its number in
the variable, evaluates all statements of the body in order, finds its number again, and stores the
next one. -/
inductive Rounds (evaluate : Evaluator) (name : String) (step : Int) (body : List Value) :
    Int → Nat → Machine → Machine → Prop
  | none (i : Int) (m : Machine) : Rounds evaluate name step body i 0 m m
  | more {i : Int} {n : Nat} {m m₁ m' : Machine} :
    m.resolve? name = some (.int i) → evalBlock evaluate none body m = .ok () m₁ →
      m₁.resolve? name = some (.int i) →
      Rounds evaluate name step body (i + step) n (m₁.assign name (.int (i + step)) none) m' →
      Rounds evaluate name step body i (n + 1) m m'

section

variable {limit depth : Nat} {name : String} {Class : Machine → Prop} {body : List Value}

theorem loopRuns_of_isLooping {m : Machine} (h : IsLooping m) : loopRuns m = .ok true m := by
  obtain ⟨outer, hloops⟩ := List.head?_eq_some_iff.mp h
  exact loopRuns_of_loops hloops

/-- Only nodes and routines can be evaluated, and there are no lists in cells to look up in them. -/
theorem resolve_of_evaluate {s v : Value} {args : Arguments} {m m' : Machine}
    (h : evaluate limit depth s args m = .ok v m') (heap : Heap) : heap.resolve s = s := by
  cases depth with
  | zero => exact nomatch h
  | succ depth =>
    cases s with
    | node n => rfl
    | routine r => rfl
    | _ => exact nomatch h

theorem ensureWritable_of_evaluate {s v : Value} {args : Arguments} {m m' : Machine}
    (hs : s.isWritable = true) (h : evaluate limit depth s args m = .ok v m') :
    ensureWritable s m = .ok () m := by
  refine ensureWritable_of_isWritable ?_
  rw [resolve_of_evaluate h, hs]

/-- A body that goes on is evaluated to its end, and the loop does not end with it. -/
theorem evalBody_of_passes (hbody : ∀ s ∈ body, Passes (evaluate limit depth) name Class s)
    {m : Machine} (hm : Class m) (hlooping : IsLooping m) {i : Int}
    (hi : m.resolve? name = some (.int i)) :
    ∃ m', evalBody (evaluate limit depth) body m = .ok false m' ∧
      evalBlock (evaluate limit depth) none body m = .ok () m' ∧
      Class m' ∧ IsLooping m' ∧ m'.resolve? name = some (.int i) := by
  induction body generalizing m with
  | nil => exact ⟨m, rfl, rfl, hm, hlooping, hi⟩
  | cons s ss ih =>
    obtain ⟨hs, hss⟩ := List.forall_mem_cons.mp hbody
    obtain ⟨v, m₁, hreturns, hm₁, hlooping₁, hi₁⟩ := hs.returns m i hm hlooping hi
    obtain ⟨m', hrest, hblock, hdone⟩ := ih hss hm₁ hlooping₁ hi₁
    refine ⟨m', ?_, ?_, hdone⟩
    · rw [evalBody, Eval.bind_of_ok (ensureWritable_of_evaluate hs.writable hreturns),
        Eval.bind_of_ok hreturns, Eval.bind_of_ok (loopRuns_of_isLooping hlooping₁)]
      exact hrest
    · rw [evalBlock, Eval.bind_of_ok hreturns]
      exact hblock

theorem isLooping_assign {m : Machine} (h : IsLooping m) (v : Value) :
    IsLooping (m.assign name v none) := by
  obtain ⟨_, _, hframe⟩ := m.assign_frame name v none
  rw [IsLooping, hframe]
  exact h

/-- A number between two that can be written can be written. -/
theorem isWritable_of_between {a b n : Int} (ha : Decimal.isWritable a = true)
    (hb : Decimal.isWritable b = true) (han : a ≤ n) (hnb : n ≤ b) :
    Decimal.isWritable n = true := by
  have hbetween (most : Nat) (ha : a.natAbs < most) (hb : b.natAbs < most) : n.natAbs < most := by
    omega
  exact decide_eq_true (hbetween _ (of_decide_eq_true ha) (of_decide_eq_true hb))

/-- The loop makes its rounds and ends behind the last of them. -/
theorem forRounds_of_passes (hname : Text.isAscii name = true)
    (hbody : ∀ s ∈ body, Passes (evaluate limit depth) name Class s)
    {first last step : Int} (hassign : GoesOnWithin name last step Class) {block : Value}
    (hblock : ∀ m, walk block m = .ok body m) (hstep : 1 ≤ step)
    (hfirst : Decimal.isWritable first = true) (hlast : Decimal.isWritable last = true)
    {rounds : Nat} {i : Int} (hi : first ≤ i) (hrounds : roundCount i last step < rounds)
    {m : Machine} (hm : i ≤ last → Class m) (hlooping : IsLooping m)
    (hvalue : m.resolve? name = some (.int i)) :
    ∃ m', forRounds (evaluate limit depth) (.text name) last (.int step) block rounds m =
        .ok () m' ∧
      Rounds (evaluate limit depth) name step body i (roundCount i last step) m m' ∧ IsLooping m' ∧
      m'.resolve? name = some (.int (i + roundCount i last step * step)) := by
  induction rounds generalizing i m with
  | zero => omega
  | succ rounds ih =>
    unfold forRounds
    rw [Eval.bind_of_ok (fetch_of_some hvalue), Eval.bind_of_ok (isAtMost_int _ _ _)]
    by_cases hgoes : i ≤ last
    · have hcount := roundCount_of_le hstep hgoes
      obtain ⟨m₁, hbody₁, hblock₁, hm₁, hlooping₁, hvalue₁⟩ :=
        evalBody_of_passes hbody (hm hgoes) hlooping hvalue
      have hnext (hle : i + step ≤ last) : Class (m₁.assign name (.int (i + step)) none) :=
        hassign m₁ i hm₁ hvalue₁ hle (isWritable_of_between hfirst hlast (by omega) hle)
      obtain ⟨m', hloop, hmore, hlooping', hvalue'⟩ := ih (i := i + step) (by omega) (by omega)
        hnext (isLooping_assign hlooping₁ _) (m₁.resolve?_assign hname _ _)
      have hint : (m.heap.resolve (.int i)).isWritable = true :=
        isWritable_resolve_int m.heap (isWritable_of_between hfirst hlast hi hgoes)
      refine ⟨m', ?_, ?_, hlooping', ?_⟩
      · simp only [hgoes, decide_true, if_true]
        rw [Eval.bind_of_ok (ensureWritable_of_isWritable hint), Eval.bind_of_ok (hblock m),
          Eval.bind_of_ok hbody₁]
        simp only [Bool.false_eq_true, if_false]
        rw [Eval.bind_of_ok (fetch_of_some hvalue₁)]
        exact hloop
      · rw [hcount]
        exact .more hvalue hblock₁ hvalue₁ hmore
      · have htotal : i + ((roundCount (i + step) last step + 1 : Nat) : Int) * step =
            i + step + roundCount (i + step) last step * step := by
          rw [Int.natCast_add, Int.add_mul]
          omega
        rw [hvalue', hcount, htotal]
    · have hcount : roundCount i last step = 0 := roundCount_of_lt (by omega)
      refine ⟨m, ?_, ?_, hlooping, ?_⟩
      · simp only [hgoes, decide_false]
        rfl
      · rw [hcount]
        exact .none i m
      · rw [hcount, hvalue]
        simp

end

/-! Whole loops -/

/-- A counting loop. Its variable is an identifier, hence of ASCII characters. -/
structure CountingLoop where
  name : String
  isAscii : Text.isAscii name = true
  start : Value
  stop : Value
  step : Value
  body : Value

namespace CountingLoop

def node (l : CountingLoop) : Node :=
  .forLoop (.text l.name) l.start l.stop l.step l.body

/-- Evaluates the start, the end and the step, in this order. -/
def bounds (evaluate : Evaluator) (l : CountingLoop) : Eval (Value × Value × Value) := do
  let first ← evalOperand evaluate l.start
  let last ← evalOperand evaluate l.stop
  let step ← evalOperand evaluate l.step
  return (first, last, step)

/-- The machine in which the first round begins. -/
def entered (l : CountingLoop) (first : Int) (m : Machine) : Machine :=
  (insideLoop m).assign l.name (.int first) none

/-- The machine without its innermost loop. -/
def leaving (m : Machine) : Machine :=
  { m with frame := { m.frame with loops := m.frame.loops.tail } }

theorem popLoop_of_isLooping {m : Machine} (h : IsLooping m) : popLoop m = .ok () (leaving m) := by
  obtain ⟨outer, hloops⟩ := List.head?_eq_some_iff.mp h
  rw [popLoop_of_loops hloops, leaving, hloops]
  rfl

variable {rounds depth : Nat}

theorem loopBound_of_evalOperand {v w : Value} {m m' : Machine}
    (h : evalOperand (evaluate rounds depth) v m = .ok w m') : m'.loopBound = m.loopBound := by
  have hensures := ensures_evalOperand (evaluates False rounds depth) (v := v) fun hfalse ↦
    hfalse.elim
  have hchanges := hensures.changes_final (.of_not id m)
  rw [Eval.final_of_ok h] at hchanges
  exact hchanges.same_settings.loopBound

/-- A value that is neither a node nor a text stands for itself. -/
theorem eq_of_evalOperand {evaluate : Evaluator} {v w : Value} {m m' : Machine}
    (hnode : ∀ n, v ≠ .node n) (htext : ∀ s, v ≠ .text s)
    (h : evalOperand evaluate v m = .ok w m') : v = w ∧ m' = m := by
  have hself : (do ensureWritable v; return v : Eval Value) m = .ok w m' := by
    unfold evalOperand at h
    split at h
    · exact absurd rfl (hnode _)
    · exact absurd rfl (htext _)
    · exact h
  obtain ⟨u, m₁, hwritable, hpure⟩ := Eval.bind_eq_ok hself
  have hstill := Eval.final_of_ok hwritable
  rw [final_ensureWritable] at hstill
  cases hpure
  exact ⟨rfl, hstill.symm⟩

/-- A step that is written as one is not evaluated, but would give one. -/
theorem loopStep_of_evalOperand {evaluate : Evaluator} {step : Value} {k : Int} {m m' : Machine}
    (h : evalOperand evaluate step m = .ok (.int k) m') (hk : Decimal.isWritable k = true) :
    loopStep evaluate step m = .ok (.int k) m' := by
  unfold loopStep
  by_cases hone : step.equals (.int 1) = true
  · have hself : step = .int k ∧ m' = m := by
      refine eq_of_evalOperand ?_ ?_ h
      · rintro n rfl
        exact nomatch hone
      · rintro s rfl
        exact nomatch hone
    obtain ⟨rfl, rfl⟩ := hself
    rw [Value.equals_ints, decide_eq_true_eq] at hone
    subst hone
    rw [Value.equals_ints]
    rfl
  · rw [if_neg hone, Eval.bind_of_ok h,
      Eval.bind_of_ok (ensureWritable_of_isWritable (isWritable_resolve_int m'.heap hk))]
    rfl

theorem isWritable_capped {bound last : Int} (h : Decimal.isWritable last = true) :
    Decimal.isWritable (capped bound last) = true := by
  have hone := isWritable_one
  unfold capped
  split_ifs with hbound
  · rcases Int.le_total last bound with hlast | hlast
    · rw [Int.min_eq_left hlast]
      exact h
    · rw [Int.min_eq_right hlast]
      exact isWritable_of_between hone h hbound hlast
  · exact h

variable {l : CountingLoop} {m m₁ : Machine} {first last step : Int}

/-- How a loop is entered once its start, end and step are known. -/
theorem enterLoop_node (hbounds : l.bounds (evaluate rounds depth) m =
      .ok (.int first, .int last, .int step) m₁)
    (hwritable : ∀ n ∈ [first, last, step], Decimal.isWritable n = true) :
    enterLoop (evaluate rounds depth) l.node m =
      .ok (countingPlan (.text l.name) (capped m.loopBound last) (.int step) l.body)
        (l.entered first m₁) := by
  obtain ⟨_, m₂, hfirst, hrest⟩ := Eval.bind_eq_ok hbounds
  obtain ⟨_, m₃, hlast, hrest⟩ := Eval.bind_eq_ok hrest
  obtain ⟨_, m₄, hstep, hpure⟩ := Eval.bind_eq_ok hrest
  cases hpure
  simp only [List.forall_mem_cons] at hwritable
  obtain ⟨hwfirst, hwlast, hwstep, -⟩ := hwritable
  have hbound : m₃.loopBound = m.loopBound :=
    (loopBound_of_evalOperand hlast).trans (loopBound_of_evalOperand hfirst)
  have hint : (Value.int last).isInt = true := rfl
  change enterCounting (evaluate rounds depth) (.text l.name) l.start l.stop l.step l.body m = _
  unfold enterCounting
  rw [Eval.bind_of_ok hfirst,
    Eval.bind_of_ok (ensureWritable_of_isWritable (isWritable_resolve_int m₂.heap hwfirst)),
    Eval.bind_of_ok hlast]
  simp only [hint, if_true]
  rw [Eval.bind_of_ok (ensureWritable_of_isWritable (isWritable_resolve_int m₃.heap hwlast)),
    Eval.bind_of_ok (rfl : (get : Eval Machine) m₃ = .ok m₃ m₃), loopStop_int, hbound,
    Eval.bind_of_ok (loopStep_of_evalOperand hstep hwstep)]
  rfl

/-- What a loop does once its start, end and step are known. -/
theorem evaluate_node (hbounds : l.bounds (evaluate rounds depth) m =
      .ok (.int first, .int last, .int step) m₁)
    (hwritable : ∀ n ∈ [first, last, step], Decimal.isWritable n = true) :
    evaluate rounds (depth + 1) (.node l.node) none m =
      (do
        forRounds (evaluate rounds depth) (.text l.name) (capped m.loopBound last) (.int step) l.body
          rounds
        popLoop
        return .null : Eval Value) (l.entered first m₁) := by
  change evalNode (evaluate rounds depth) rounds l.node none m = _
  rw [evalNode_loop _ _ rfl, Eval.bind_of_ok (enterLoop_node hbounds hwritable),
    forRounds_eq_run _ _ _ _ rounds 0]
  rfl

theorem bounds_of_gives {evaluate : Evaluator} {first last step : Value}
    (hfirst : Gives evaluate m l.start first) (hlast : Gives evaluate m l.stop last)
    (hstep : Gives evaluate m l.step step) :
    l.bounds evaluate m = .ok (first, last, step) m := by
  rw [bounds, Eval.bind_of_ok hfirst, Eval.bind_of_ok hlast, Eval.bind_of_ok hstep]
  rfl

/-- A loop over whole numbers with a positive step, whose body goes on, evaluates it exactly
`roundCount` times and then ends: the rounds are for `first`, `first + step` and so on up to the end,
or up to the bound on loops, and behind them the variable is one step further. -/
theorem makes_all_rounds {Class : Machine → Prop} {body : List Value}
    (hbounds : l.bounds (evaluate rounds depth) m = .ok (.int first, .int last, .int step) m₁)
    (hwritable : ∀ n ∈ [first, last, step], Decimal.isWritable n = true) (hstep : 1 ≤ step)
    (hbody : ∀ m, walk l.body m = .ok body m)
    (hpasses : ∀ s ∈ body, Passes (evaluate rounds depth) l.name Class s)
    (hassign : GoesOnWithin l.name (capped m.loopBound last) step Class)
    (hstart : first ≤ capped m.loopBound last → Class (l.entered first m₁))
    (hrounds : roundCount first (capped m.loopBound last) step < rounds) :
    ∃ m₂, evaluate rounds (depth + 1) (.node l.node) none m = .ok .null (leaving m₂) ∧
      Rounds (evaluate rounds depth) l.name step body first
        (roundCount first (capped m.loopBound last) step) (l.entered first m₁) m₂ ∧
      (leaving m₂).resolve? l.name =
        some (.int (first + roundCount first (capped m.loopBound last) step * step)) := by
  have hlooping : IsLooping (l.entered first m₁) := isLooping_assign (m := insideLoop m₁) rfl _
  have hfirst : Decimal.isWritable first = true := hwritable first (by simp)
  have hlast : Decimal.isWritable (capped m.loopBound last) = true :=
    isWritable_capped (hwritable last (by simp))
  obtain ⟨m₂, hloop, hmade, hlooping₂, hvalue⟩ := forRounds_of_passes l.isAscii hpasses hassign hbody
    hstep hfirst hlast (Int.le_refl first) hrounds hstart hlooping
    ((insideLoop m₁).resolve?_assign l.isAscii _ _)
  refine ⟨m₂, ?_, hmade, hvalue⟩
  rw [evaluate_node hbounds hwritable, Eval.bind_of_ok hloop,
    Eval.bind_of_ok (popLoop_of_isLooping hlooping₂)]
  rfl

/-- A statement that shows the variable of a loop, as in `MsgBox i`. -/
def message : Value :=
  .node (.callStatement (.text "MsgBox") (.tokens (.one (.node (.simpleName "i")))))

/-- The variable holds a number that can be written. -/
def HoldsWritable (m : Machine) : Prop :=
  ∃ i, m.resolve? "i" = some (.int i) ∧ Decimal.isWritable i = true

theorem HoldsWritable.assign (m : Machine) {i : Int} (hi : Decimal.isWritable i = true) :
    HoldsWritable (m.assign "i" (.int i) none) :=
  ⟨i, m.resolve?_assign (by decide) _ _, hi⟩

theorem goesOn_holdsWritable (stop step : Int) : GoesOnWithin "i" stop step HoldsWritable :=
  fun m _ _ _ _ hwritable ↦ .assign m hwritable

/-- To show the variable returns, and only records it, unless its number cannot be written. -/
theorem passes_message (rounds depth : Nat) :
    Passes (evaluate rounds (depth + 2)) "i" HoldsWritable message := by
  refine ⟨rfl, fun m i hm hlooping hi ↦ ?_⟩
  have hwritable : Decimal.isWritable i = true := by
    obtain ⟨k, hk, hwritable⟩ := hm
    rw [hi] at hk
    cases hk
    exact hwritable
  have hgives : Gives (evaluate rounds (depth + 1)) m (.node (.simpleName "i")) (.int i) :=
    gives_fetched (fetch_of_some hi) (isWritable_resolve_int m.heap hwritable) rfl
  have hargs : evalArguments (evaluate rounds (depth + 1)) (.tokens (.one (.node (.simpleName "i"))))
      m = .ok [.int i] m :=
    (Eval.bind_of_ok (walk_ofList [.node (.simpleName "i")] m) _).trans
      (evalOperands_of_gives (.cons hgives .nil))
  have hshown : (m.heap.resolve (.list [.int i])).isWritable = true :=
    isWritable_resolve_list m.heap (by simp [isWritableScalar, hwritable])
  have hlower : Text.lower "MsgBox" = "msgbox" := Routine.msgBox.lower_name
  have hname : (Text.lower "MsgBox" == "msgbox") = true := beq_iff_eq.mpr hlower
  have hmessage : evalCallStatement (evaluate rounds (depth + 1)) (.text "MsgBox")
      (.tokens (.one (.node (.simpleName "i")))) m = .ok (.int 1) { m with
        actions := m.actions.push
          ⟨.text "Display Message", .text (Value.int i).quoted, .text "MsgBox"⟩ } := by
    unfold evalCallStatement
    rw [Eval.bind_of_ok hargs, Eval.bind_of_ok (ensureWritable_of_isWritable hshown),
      Eval.bind_of_ok (displayed_text "MsgBox" m), if_pos hname]
    rfl
  exact ⟨_, _, hmessage, hm, hlooping, hi⟩

theorem isWritable_small {n : Int} (hn : n.natAbs < Nat.pow 10 2) : Decimal.isWritable n = true :=
  Decimal.isWritable_of_lt (by decide) hn

/-- The bounds of a loop that are written as small numbers. -/
theorem bounds_of_small (l : CountingLoop) (evaluate : Evaluator) (m : Machine)
    (hstart : l.start = .int first) (hstop : l.stop = .int last) (hstep : l.step = .int step)
    (hsmall : ∀ n ∈ [first, last, step], n.natAbs < Nat.pow 10 2) :
    l.bounds evaluate m = .ok (.int first, .int last, .int step) m := by
  have hgives (v : Value) (n : Int) (hv : v = .int n) (hn : n ∈ [first, last, step]) :
      Gives evaluate m v (.int n) := by
    subst hv
    exact gives_int (isWritable_small (hsmall n hn))
  exact bounds_of_gives (hgives _ _ hstart (by simp)) (hgives _ _ hstop (by simp))
    (hgives _ _ hstep (by simp))

/-- A loop from one to ten in steps of three, whose body shows the variable. -/
def greeting : CountingLoop where
  name := "i"
  isAscii := by decide
  start := .int 1
  stop := .int 10
  step := .int 3
  body := .tokens (.ofList [message])

theorem makes_all_rounds_greeting :
    (∀ s ∈ [message], Passes (evaluate roundLimit 2) "i" HoldsWritable s) ∧
      GoesOnWithin "i" (capped 1000000 10) 3 HoldsWritable ∧
      HoldsWritable (greeting.entered 1 {}) ∧
      ∃ m, evaluate roundLimit 3 (.node greeting.node) none {} = .ok .null (leaving m) ∧
        Rounds (evaluate roundLimit 2) "i" 3 [message] 1 4 (greeting.entered 1 {}) m ∧
        (leaving m).resolve? "i" = some (.int 13) := by
  have hsmall : ∀ n ∈ [(1 : Int), 10, 3], n.natAbs < Nat.pow 10 2 := by decide
  have hpasses : ∀ s ∈ [message], Passes (evaluate roundLimit 2) "i" HoldsWritable s :=
    List.forall_mem_singleton.mpr (passes_message roundLimit 0)
  have hstart : HoldsWritable (greeting.entered 1 {}) := .assign _ isWritable_one
  obtain ⟨m, hends, hmade, hvalue⟩ := makes_all_rounds
    (greeting.bounds_of_small (evaluate roundLimit 2) {} rfl rfl rfl hsmall)
    (fun n hn ↦ isWritable_small (hsmall n hn)) (by decide) (fun m ↦ walk_ofList _ m) hpasses
    (goesOn_holdsWritable _ _) (fun _ ↦ hstart) (by decide)
  exact ⟨hpasses, goesOn_holdsWritable _ _, hstart, m, hends, hmade, hvalue⟩

/-- A number of as many digits as can be written, and not of one digit less. -/
def longNumber : Int := (5 * Nat.pow 10 4299 : Nat)

/-- A machine with this number in a variable. -/
def holdingLong : Machine :=
  { frame := { locals := ⟨[("a", .int longNumber)]⟩ } }

/-- An empty loop, as in `For i = a + a To 5`. -/
def doubling : CountingLoop where
  name := "i"
  isAscii := by decide
  start := .node (.operation .add [.node (.simpleName "a"), .node (.simpleName "a")])
  stop := .int 5
  step := .int 1
  body := .tokens .empty

theorem gives_doubled (rounds depth : Nat) :
    Gives (evaluate rounds (depth + 2)) holdingLong doubling.start (.int (longNumber + longNumber)) := by
  have hwritable : Decimal.isWritable longNumber = true := by decide +kernel
  have hlower : Text.lower "a" = "a" := Text.lower_eq_of_isAscii (by decide) (by decide)
  have hfound : holdingLong.lookup "a" = some (.int longNumber) := by
    rw [Machine.lookup_eq_lookupKey, hlower]
    rfl
  have hname : Gives (evaluate rounds (depth + 1)) holdingLong (.node (.simpleName "a"))
      (.int longNumber) :=
    gives_name rfl hfound (isWritable_resolve_int _ hwritable) rfl
  have hoperands : List.Forall₂ (Gives (evaluate rounds (depth + 1)) holdingLong)
      [.node (.simpleName "a"), .node (.simpleName "a")] ([longNumber, longNumber].map Value.int) :=
    .cons hname (.cons hname .nil)
  exact evalOperand_node_iff.mpr ⟨rfl, evalSum_of_ints hoperands⟩

/-- The loop should not make a single round, but it fails because its start has too many digits to be
written. -/
theorem long_start_fails : ¬ ∀ (l : CountingLoop) (rounds depth : Nat) (m m₁ : Machine)
    (first last step : Int) (body : List Value),
    l.bounds (evaluate rounds depth) m = .ok (.int first, .int last, .int step) m₁ → 1 ≤ step →
    (∀ m, walk l.body m = .ok body m) →
    (∀ s ∈ body, Passes (evaluate rounds depth) l.name (fun _ ↦ True) s) →
    roundCount first (capped m.loopBound last) step < rounds →
    ∃ m₂, evaluate rounds (depth + 1) (.node l.node) none m = .ok .null (leaving m₂) ∧
      Rounds (evaluate rounds depth) l.name step body first
        (roundCount first (capped m.loopBound last) step) (l.entered first m₁) m₂ ∧
      (leaving m₂).resolve? l.name =
        some (.int (first + roundCount first (capped m.loopBound last) step * step)) := by
  intro h
  have hfive : Gives (evaluate 1 2) holdingLong (.int 5) (.int 5) :=
    gives_int (Decimal.isWritable_of_lt (by decide : 1 ≤ Decimal.digitLimit) (by decide))
  have hbounds : doubling.bounds (evaluate 1 2) holdingLong =
      .ok (.int (longNumber + longNumber), .int 5, .int 1) holdingLong :=
    bounds_of_gives (gives_doubled 1 0) hfive (gives_int isWritable_one)
  have hcount : roundCount (longNumber + longNumber) (capped holdingLong.loopBound 5) 1 < 1 := by
    decide +kernel
  obtain ⟨m₂, hends, -⟩ := h doubling 1 2 holdingLong holdingLong _ 5 1 [] hbounds (by decide)
    (fun m ↦ walk_ofList [] m) nofun hcount
  have hlong : (holdingLong.heap.resolve (.int (longNumber + longNumber))).isWritable = false := by
    decide +kernel
  have hfails : evaluate 1 3 (.node doubling.node) none holdingLong =
      .error .wrongValue holdingLong := by
    change evalFor (evaluate 1 2) 1 (.text "i") doubling.start (.int 5) (.int 1) (.tokens .empty)
      holdingLong = _
    unfold evalFor
    rw [Eval.bind_of_ok (gives_doubled 1 0)]
    exact Eval.bind_of_error (ensureWritable_of_not_isWritable hlong) _
  rw [hfails] at hends
  exact nomatch hends

end CountingLoop

end Semantics

end VbaTrace
