import VbaTrace.Proofs.CountingLoops

/-!
How often a counting loop evaluates its body, for steps of any sign. The loop goes on while the
variable is at most the last number, whichever way it counts, and the bound on loops only caps that
number. So a body that leaves the variable alone is evaluated for `first`, `first + step` and so on
as long as these numbers do not exceed the end, and have no more digits than can be written
(`begins_iff`). A positive step ends the loop (`run_of_climbs`). With a step that is not positive
the loop makes no round at all, or it never returns (`run_of_sinking`).

Hence the bound limits the number of rounds only where the loop starts high enough
(`CountingLoop.ends_within_bound`), and a loop does not count down (`CountingLoop.counts_down_iff`).
-/

set_option autoImplicit false

namespace VbaTrace

namespace Semantics

/-! One round -/

section

variable {name : String} {block : Value} {body : List Value} {stop step i : Int} {m : Machine}

theorem next_of_lt (hvalue : m.resolve? name = some (.int i)) (hi : stop < i) (place : Nat) :
    (countingPlan (.text name) stop (.int step) block).next place m = .ok none m := by
  unfold countingPlan
  dsimp only
  rw [Eval.bind_of_ok (fetch_of_some hvalue), Eval.bind_of_ok (isAtMost_int i stop m)]
  simp only [Int.not_le.mpr hi, decide_false]
  rfl

theorem next_of_le (hblock : ∀ m, walk block m = .ok body m)
    (hvalue : m.resolve? name = some (.int i)) (hi : i ≤ stop)
    (hwritable : Decimal.isWritable i = true) (place : Nat) :
    (countingPlan (.text name) stop (.int step) block).next place m = .ok (some body) m := by
  unfold countingPlan
  dsimp only
  rw [Eval.bind_of_ok (fetch_of_some hvalue), Eval.bind_of_ok (isAtMost_int i stop m)]
  simp only [hi, decide_true, if_true]
  rw [Eval.bind_of_ok (ensureWritable_of_isWritable (isWritable_resolve_int m.heap hwritable)),
    Eval.bind_of_ok (hblock m)]
  rfl

theorem next_of_unwritable (hvalue : m.resolve? name = some (.int i)) (hi : i ≤ stop)
    (hwritable : Decimal.isWritable i = false) (place : Nat) :
    (countingPlan (.text name) stop (.int step) block).next place m = .error .wrongValue m := by
  unfold countingPlan
  dsimp only
  rw [Eval.bind_of_ok (fetch_of_some hvalue), Eval.bind_of_ok (isAtMost_int i stop m)]
  have hint : (m.heap.resolve (.int i)).isWritable = false := by
    have hsame : m.heap.resolve (.int i) = .int i := rfl
    rw [hsame, Value.isWritable, hwritable]
  simp only [hi, decide_true, if_true]
  exact Eval.bind_of_error (ensureWritable_of_not_isWritable hint) _

/-- A round is begun for a number that is at most the last one and can be written. -/
theorem next_eq_some_iff (hblock : ∀ m, walk block m = .ok body m)
    (hvalue : m.resolve? name = some (.int i)) (place : Nat) {ss : List Value} {m' : Machine} :
    (countingPlan (.text name) stop (.int step) block).next place m = .ok (some ss) m' ↔
      (i ≤ stop ∧ Decimal.isWritable i = true) ∧ ss = body ∧ m' = m := by
  rcases Int.lt_or_le stop i with hi | hi
  · simp [next_of_lt hvalue hi, Int.not_le.mpr hi]
  · cases hwritable : Decimal.isWritable i with
    | true =>
      rw [next_of_le hblock hvalue hi hwritable]
      simp [hi, eq_comm]
    | false => simp [next_of_unwritable hvalue hi hwritable]

theorem goesOn_of_value (hvalue : m.resolve? name = some (.int i)) :
    (countingPlan (.text name) stop (.int step) block).goesOn m =
      .ok true (m.assign name (.int (i + step)) none) := by
  unfold countingPlan
  dsimp only
  rw [Eval.bind_of_ok (fetch_of_some hvalue)]
  rfl

theorem begins_zero_iff {evaluate : Evaluator} (hblock : ∀ m, walk block m = .ok body m)
    (hvalue : m.resolve? name = some (.int i)) {place : Nat} {ss : List Value} {m' : Machine} :
    (countingPlan (.text name) stop (.int step) block).Begins evaluate place 0 m ss m' ↔
      (i ≤ stop ∧ Decimal.isWritable i = true) ∧ ss = body ∧ m' = m := by
  rw [← next_eq_some_iff hblock hvalue place]
  constructor
  · intro h
    cases h with
    | now hnext => exact hnext
  · exact .now

/-- A loop that comes to any round makes the one before which it stands. -/
theorem fits_of_begins {evaluate : Evaluator} (hblock : ∀ m, walk block m = .ok body m)
    (hvalue : m.resolve? name = some (.int i)) {place k : Nat} {ss : List Value} {m' : Machine}
    (h : (countingPlan (.text name) stop (.int step) block).Begins evaluate place k m ss m') :
    i ≤ stop ∧ Decimal.isWritable i = true := by
  cases h with
  | now hnext => exact ((next_eq_some_iff hblock hvalue place).mp hnext).1
  | later hnext => exact ((next_eq_some_iff hblock hvalue place).mp hnext).1

/-- What a whole round does decides how the loop comes to a later one. -/
theorem begins_succ_iff {evaluate : Evaluator} (hblock : ∀ m, walk block m = .ok body m)
    (hvalue : m.resolve? name = some (.int i)) {left : Bool} {m₁ : Machine} {j : Int}
    (hround : evalBody evaluate body m = .ok left m₁) (hvalue₁ : m₁.resolve? name = some (.int j))
    {place k : Nat} {ss : List Value} {m' : Machine} :
    (countingPlan (.text name) stop (.int step) block).Begins evaluate place (k + 1) m ss m' ↔
      (i ≤ stop ∧ Decimal.isWritable i = true) ∧ left = false ∧
        (countingPlan (.text name) stop (.int step) block).Begins evaluate (place + 1) k
          (m₁.assign name (.int (j + step)) none) ss m' := by
  constructor
  · intro h
    cases h with
    | later hnext hwhole hgoesOn hmore =>
      obtain ⟨hi, rfl, rfl⟩ := (next_eq_some_iff hblock hvalue place).mp hnext
      rw [hround] at hwhole
      cases hwhole
      rw [goesOn_of_value hvalue₁] at hgoesOn
      cases hgoesOn
      exact ⟨hi, rfl, hmore⟩
  · rintro ⟨hi, rfl, hmore⟩
    exact .later ((next_eq_some_iff hblock hvalue place).mpr ⟨hi, rfl, rfl⟩) hround
      (goesOn_of_value hvalue₁) hmore

end

/-! Progressions -/

theorem progression_succ (i step : Int) (t : Nat) :
    i + step + t * step = i + (t + 1 : Nat) * step := by
  rw [Int.natCast_add, Int.add_mul]
  omega

/-- A progression is its first number and the progression from the next number on. -/
theorem forall_progression_succ_iff {P : Int → Prop} {i step : Int} {k : Nat} :
    (∀ t : Nat, t ≤ k + 1 → P (i + t * step)) ↔
      P i ∧ ∀ t : Nat, t ≤ k → P (i + step + t * step) := by
  constructor
  · intro h
    refine ⟨by simpa using h 0 (by omega), fun t ht ↦ ?_⟩
    rw [progression_succ]
    exact h (t + 1) (by omega)
  · rintro ⟨hfirst, hlater⟩ t ht
    cases t with
    | zero => simpa using hfirst
    | succ t =>
      rw [← progression_succ]
      exact hlater t (by omega)

/-- Of a progression that begins with a number that can be written, the last number decides. -/
theorem forall_progression_iff {first stop step : Int} {k : Nat}
    (hfirst : Decimal.isWritable first = true) :
    (∀ t : Nat, t ≤ k → first + t * step ≤ stop ∧ Decimal.isWritable (first + t * step) = true) ↔
      first ≤ stop ∧ first + k * step ≤ stop ∧ Decimal.isWritable (first + k * step) = true := by
  constructor
  · intro h
    exact ⟨by simpa using (h 0 (by omega)).1, h k (Nat.le_refl k)⟩
  · rintro ⟨hstart, hend, hwritable⟩ t ht
    have hcast : (t : Int) ≤ k := by exact_mod_cast ht
    rcases Int.le_total 0 step with hstep | hstep
    · have hlow : 0 ≤ (t : Int) * step := Int.mul_nonneg (by omega) hstep
      have hhigh : (t : Int) * step ≤ k * step := Int.mul_le_mul_of_nonneg_right hcast hstep
      exact ⟨by omega, isWritable_of_between hfirst hwritable (by omega) (by omega)⟩
    · have hhigh : (t : Int) * step ≤ 0 := Int.mul_nonpos_of_nonneg_of_nonpos (by omega) hstep
      have hlow : (k : Int) * step ≤ t * step := Int.mul_le_mul_of_nonpos_right hcast hstep
      exact ⟨by omega, isWritable_of_between hwritable hfirst (by omega) (by omega)⟩

/-! Bodies that leave the variable alone -/

section

variable {limit depth : Nat} {name : String} {Class : Machine → Prop} {block : Value}
  {body : List Value} {stop step : Int} (hname : Text.isAscii name = true)
  (hblock : ∀ m, walk block m = .ok body m) (hassign : GoesOnWithin name stop step Class)
  (hbody : ∀ s ∈ body, Passes (evaluate limit depth) name Class s)
include hname hblock hassign hbody

/-- A body that goes on is evaluated for the numbers of the progression, until one of them exceeds
the last number or has too many digits. -/
theorem begins_iff (place : Nat) {k : Nat} {i : Int} {m : Machine}
    (hm : i ≤ stop → Decimal.isWritable i = true → Class m) (hlooping : IsLooping m)
    (hvalue : m.resolve? name = some (.int i)) :
    (∃ ss m', (countingPlan (.text name) stop (.int step) block).Begins (evaluate limit depth) place
        k m ss m') ↔
      ∀ t : Nat, t ≤ k → i + t * step ≤ stop ∧ Decimal.isWritable (i + t * step) = true := by
  induction k generalizing place i m with
  | zero =>
    simp only [begins_zero_iff hblock hvalue]
    constructor
    · rintro ⟨ss, m', hi, -, -⟩ t ht
      rw [Nat.le_zero.mp ht]
      simpa using hi
    · intro h
      exact ⟨body, m, by simpa using h 0 (Nat.le_refl 0), rfl, rfl⟩
  | succ k ih =>
    by_cases hi : i ≤ stop ∧ Decimal.isWritable i = true
    · obtain ⟨m₁, hround, -, hm₁, hlooping₁, hvalue₁⟩ :=
        evalBody_of_passes hbody (hm hi.1 hi.2) hlooping hvalue
      rw [forall_progression_succ_iff (P := fun n ↦ n ≤ stop ∧ Decimal.isWritable n = true),
        ← ih (place + 1) (hassign m₁ i hm₁ hvalue₁) (isLooping_assign hlooping₁ _)
          (m₁.resolve?_assign hname _ _)]
      simp only [begins_succ_iff hblock hvalue hround hvalue₁, true_and, exists_and_left]
    · exact iff_of_false (fun ⟨_, _, h⟩ ↦ hi (fits_of_begins hblock hvalue h))
        fun h ↦ hi (by simpa using h 0 (Nat.zero_le _))

/-- In the round behind `k` others the variable is `k` steps further. -/
theorem value_of_begins {k place : Nat} {i : Int} {m m' : Machine} {ss : List Value}
    (hm : i ≤ stop → Decimal.isWritable i = true → Class m) (hlooping : IsLooping m)
    (hvalue : m.resolve? name = some (.int i))
    (hbegins : (countingPlan (.text name) stop (.int step) block).Begins (evaluate limit depth)
      place k m ss m') : m'.resolve? name = some (.int (i + k * step)) := by
  induction k generalizing place i m with
  | zero =>
    obtain ⟨-, -, rfl⟩ := (begins_zero_iff hblock hvalue).mp hbegins
    simpa using hvalue
  | succ k ih =>
    obtain ⟨hi, hwritable⟩ := fits_of_begins hblock hvalue hbegins
    obtain ⟨m₁, hround, -, hm₁, hlooping₁, hvalue₁⟩ :=
      evalBody_of_passes hbody (hm hi hwritable) hlooping hvalue
    obtain ⟨-, -, hmore⟩ := (begins_succ_iff hblock hvalue hround hvalue₁).mp hbegins
    rw [← progression_succ]
    exact ih (hassign m₁ i hm₁ hvalue₁) (isLooping_assign hlooping₁ _)
      (m₁.resolve?_assign hname _ _) hmore

/-- A step that is not positive leads no further, so the loop does not return once it has begun. It
goes on until the variable has too many digits to be written, if the rounds last that long. -/
theorem run_of_sinking (hstep : step ≤ 0) (rounds place : Nat) {i : Int} (hi : i ≤ stop)
    {m : Machine} (hm : Decimal.isWritable i = true → Class m) (hlooping : IsLooping m)
    (hvalue : m.resolve? name = some (.int i)) :
    ∃ f m', (countingPlan (.text name) stop (.int step) block).run (evaluate limit depth) rounds
      place m = .error f m' := by
  induction rounds generalizing place i m with
  | zero => exact ⟨_, _, rfl⟩
  | succ rounds ih =>
    cases hwritable : Decimal.isWritable i with
    | false => exact ⟨_, _, Eval.bind_of_error (next_of_unwritable hvalue hi hwritable place) _⟩
    | true =>
      obtain ⟨m₁, hround, -, hm₁, hlooping₁, hvalue₁⟩ :=
        evalBody_of_passes hbody (hm hwritable) hlooping hvalue
      obtain ⟨f, m', hrest⟩ := ih (place + 1) (i := i + step) (by omega)
        (hassign m₁ i hm₁ hvalue₁ (by omega)) (isLooping_assign hlooping₁ _)
        (m₁.resolve?_assign hname _ _)
      refine ⟨f, m', ?_⟩
      rw [LoopPlan.run_of_next (next_of_le hblock hvalue hi hwritable place),
        Eval.bind_of_ok hround]
      exact (Eval.bind_of_ok (goesOn_of_value hvalue₁) _).trans hrest

end

/-! Bodies that do not lower the variable -/

/-- In every machine of a class, inside a loop that runs, with a number in the variable, the statement
returns. It leaves a machine of the class, and a number in the variable that is not less than the one
before. It may leave the loop. -/
structure Climbs (evaluate : Evaluator) (name : String) (Class : Machine → Prop) (s : Value) :
    Prop where
  writable : s.isWritable = true
  returns : ∀ m i, Class m → IsLooping m → m.resolve? name = some (.int i) →
    ∃ v m' runs j, evaluate s none m = .ok v m' ∧ Class m' ∧ m'.frame.loops.head? = some runs ∧
      m'.resolve? name = some (.int j) ∧ i ≤ j

section

variable {limit depth : Nat} {name : String} {Class : Machine → Prop} {block : Value}
  {body : List Value} {stop step : Int}

theorem Passes.climbs {evaluate : Evaluator} {s : Value} (h : Passes evaluate name Class s) :
    Climbs evaluate name Class s := by
  refine ⟨h.writable, fun m i hm hlooping hvalue ↦ ?_⟩
  obtain ⟨v, m', hreturns, hm', hlooping', hvalue'⟩ := h.returns m i hm hlooping hvalue
  exact ⟨v, m', true, i, hreturns, hm', hlooping', hvalue', Int.le_refl i⟩

theorem evalBody_of_climbs (hbody : ∀ s ∈ body, Climbs (evaluate limit depth) name Class s)
    {m : Machine} (hm : Class m) (hlooping : IsLooping m) {i : Int}
    (hvalue : m.resolve? name = some (.int i)) :
    ∃ left m' j, evalBody (evaluate limit depth) body m = .ok left m' ∧ Class m' ∧
      m'.frame.loops.head? = some (!left) ∧ m'.resolve? name = some (.int j) ∧ i ≤ j := by
  induction body generalizing m i with
  | nil => exact ⟨false, m, i, rfl, hm, hlooping, hvalue, Int.le_refl i⟩
  | cons s ss ih =>
    obtain ⟨hs, hss⟩ := List.forall_mem_cons.mp hbody
    obtain ⟨v, m₁, runs, j, hreturns, hm₁, hloops₁, hvalue₁, hj⟩ :=
      hs.returns m i hm hlooping hvalue
    obtain ⟨outer, hloops⟩ := List.head?_eq_some_iff.mp hloops₁
    have hstatement : evalBody (evaluate limit depth) (s :: ss) m =
        (if runs then evalBody (evaluate limit depth) ss else return true : Eval Bool) m₁ := by
      rw [evalBody, Eval.bind_of_ok (ensureWritable_of_evaluate hs.writable hreturns),
        Eval.bind_of_ok hreturns, Eval.bind_of_ok (loopRuns_of_loops hloops)]
    cases runs with
    | true =>
      obtain ⟨left, m', j', hrest, hm', hloops', hvalue', hj'⟩ := ih hss hm₁ hloops₁ hvalue₁
      exact ⟨left, m', j', hstatement.trans hrest, hm', hloops', hvalue', Int.le_trans hj hj'⟩
    | false => exact ⟨true, m₁, j, hstatement, hm₁, hloops₁, hvalue₁, hj⟩

variable (hname : Text.isAscii name = true) (hblock : ∀ m, walk block m = .ok body m)
  (hassign : GoesOnWithin name stop step Class)
  (hbody : ∀ s ∈ body, Climbs (evaluate limit depth) name Class s)
include hname hblock hassign hbody

/-- Each round begins at least one step further than the one before. -/
theorem le_of_begins {k place : Nat} {i : Int} {m m' : Machine} {ss : List Value}
    (hm : i ≤ stop → Decimal.isWritable i = true → Class m) (hlooping : IsLooping m)
    (hvalue : m.resolve? name = some (.int i))
    (hbegins : (countingPlan (.text name) stop (.int step) block).Begins (evaluate limit depth)
      place k m ss m') : i ≤ stop ∧ i + k * step ≤ stop := by
  obtain ⟨hi, hwritable⟩ := fits_of_begins hblock hvalue hbegins
  induction k generalizing place i m with
  | zero => simpa using hi
  | succ k ih =>
    obtain ⟨left, m₁, j, hround, hm₁, hloops₁, hvalue₁, hj⟩ :=
      evalBody_of_climbs hbody (hm hi hwritable) hlooping hvalue
    obtain ⟨-, rfl, hmore⟩ := (begins_succ_iff hblock hvalue hround hvalue₁).mp hbegins
    have hvalue₂ := m₁.resolve?_assign hname (.int (j + step)) none
    obtain ⟨hi₂, hwritable₂⟩ := fits_of_begins hblock hvalue₂ hmore
    obtain ⟨-, hrest⟩ := ih (hassign m₁ j hm₁ hvalue₁) (isLooping_assign hloops₁ _) hvalue₂ hmore
      hi₂ hwritable₂
    rw [← progression_succ]
    omega

/-- With a positive step the loop returns, as soon as so many steps would exceed the last number. -/
theorem run_of_climbs (hstep : 1 ≤ step) {first : Int} (hfirst : Decimal.isWritable first = true)
    (hstop : Decimal.isWritable stop = true) (rounds place : Nat) {k : Nat} (hrounds : k < rounds)
    {i : Int} (hi : first ≤ i) (hk : stop < i + k * step) {m : Machine} (hm : i ≤ stop → Class m)
    (hlooping : IsLooping m) (hvalue : m.resolve? name = some (.int i)) :
    ∃ m' runs, (countingPlan (.text name) stop (.int step) block).run (evaluate limit depth) rounds
        place m = .ok () m' ∧ m'.frame.loops.head? = some runs := by
  induction k generalizing rounds place i m with
  | zero =>
    obtain ⟨rounds, rfl⟩ := Nat.exists_eq_succ_of_ne_zero (Nat.ne_of_gt hrounds)
    have hover : stop < i := by simpa using hk
    exact ⟨m, true, Eval.bind_of_ok (next_of_lt hvalue hover place) _, hlooping⟩
  | succ k ih =>
    obtain ⟨rounds, rfl⟩ := Nat.exists_eq_succ_of_ne_zero (show rounds ≠ 0 by omega)
    rcases Int.lt_or_le stop i with hover | hgoes
    · exact ⟨m, true, Eval.bind_of_ok (next_of_lt hvalue hover place) _, hlooping⟩
    · have hwritable : Decimal.isWritable i = true := isWritable_of_between hfirst hstop hi hgoes
      obtain ⟨left, m₁, j, hround, hm₁, hloops₁, hvalue₁, hj⟩ :=
        evalBody_of_climbs hbody (hm hgoes) hlooping hvalue
      have hrun : (countingPlan (.text name) stop (.int step) block).run (evaluate limit depth)
          (rounds + 1) place m = (countingPlan (.text name) stop (.int step) block).after
            (evaluate limit depth) rounds (place + 1) left m₁ :=
        (LoopPlan.run_of_next (next_of_le hblock hvalue hgoes hwritable place)).trans
          (Eval.bind_of_ok hround _)
      cases left with
      | true => exact ⟨m₁, false, hrun, hloops₁⟩
      | false =>
        have hfurther : stop < j + step + k * step := by
          rw [← progression_succ] at hk
          omega
        have hnext (hle : j + step ≤ stop) : Class (m₁.assign name (.int (j + step)) none) :=
          hassign m₁ j hm₁ hvalue₁ hle (isWritable_of_between hfirst hstop (by omega) hle)
        obtain ⟨m', runs, hrest, hloops'⟩ := ih rounds (place + 1) (by omega) (by omega) hfurther
          hnext (isLooping_assign hloops₁ _) (m₁.resolve?_assign hname _ _)
        refine ⟨m', runs, hrun.trans ?_, hloops'⟩
        exact (Eval.bind_of_ok (goesOn_of_value hvalue₁) _).trans hrest

end

/-! Whole loops -/

namespace CountingLoop

variable {rounds depth : Nat} {l : CountingLoop} {m m₁ : Machine} {first last step : Int}
  {Class : Machine → Prop} {body : List Value}

theorem isLooping_entered (l : CountingLoop) (first : Int) (m : Machine) :
    IsLooping (l.entered first m) :=
  isLooping_assign (m := insideLoop m) rfl _

theorem resolve?_entered (l : CountingLoop) (first : Int) (m : Machine) :
    (l.entered first m).resolve? l.name = some (.int first) :=
  (insideLoop m).resolve?_assign l.isAscii _ _

theorem comesTo_iff (hbounds : l.bounds (evaluate rounds depth) m =
      .ok (.int first, .int last, .int step) m₁)
    (hwritable : ∀ n ∈ [first, last, step], Decimal.isWritable n = true) {k : Nat} {m' : Machine} :
    ComesTo (evaluate rounds depth) l.node k m m' ↔
      ∃ ss, (countingPlan (.text l.name) (capped m.loopBound last) (.int step) l.body).Begins
        (evaluate rounds depth) 0 k (l.entered first m₁) ss m' := by
  have henters := enterLoop_node hbounds hwritable
  constructor
  · rintro ⟨plan, m₂, ss, hplan, hbegins⟩
    rw [henters] at hplan
    cases hplan
    exact ⟨ss, hbegins⟩
  · rintro ⟨ss, hbegins⟩
    exact ⟨_, _, ss, henters, hbegins⟩

/-- What a loop does once it is entered. -/
theorem evaluate_node_eq (hbounds : l.bounds (evaluate rounds depth) m =
      .ok (.int first, .int last, .int step) m₁)
    (hwritable : ∀ n ∈ [first, last, step], Decimal.isWritable n = true) :
    evaluate rounds (depth + 1) (.node l.node) none m =
      (do
        (countingPlan (.text l.name) (capped m.loopBound last) (.int step) l.body).run
          (evaluate rounds depth) rounds 0
        popLoop
        return .null : Eval Value) (l.entered first m₁) := by
  rw [evaluate_node hbounds hwritable, forRounds_eq_run _ _ _ _ rounds 0]

/-- A loop that starts beyond its end makes no round. -/
theorem evaluate_of_beyond (hbounds : l.bounds (evaluate rounds depth) m =
      .ok (.int first, .int last, .int step) m₁)
    (hwritable : ∀ n ∈ [first, last, step], Decimal.isWritable n = true) (hrounds : 0 < rounds)
    (hbeyond : capped m.loopBound last < first) :
    evaluate rounds (depth + 1) (.node l.node) none m =
      .ok .null (leaving (l.entered first m₁)) := by
  have hrun : (countingPlan (.text l.name) (capped m.loopBound last) (.int step) l.body).run
      (evaluate rounds depth) rounds 0 (l.entered first m₁) = .ok () (l.entered first m₁) := by
    obtain ⟨n, hn⟩ := Nat.exists_eq_succ_of_ne_zero (Nat.ne_of_gt hrounds)
    rw [hn]
    exact Eval.bind_of_ok (next_of_lt (l.resolve?_entered first m₁) hbeyond 0) _
  rw [evaluate_node_eq hbounds hwritable, Eval.bind_of_ok hrun,
    Eval.bind_of_ok (popLoop_of_isLooping (l.isLooping_entered first m₁))]
  rfl

/-- A loop that climbs returns before its `k`-th round, if `k` steps lead beyond its end. -/
theorem evaluate_of_climbs (hbounds : l.bounds (evaluate rounds depth) m =
      .ok (.int first, .int last, .int step) m₁)
    (hwritable : ∀ n ∈ [first, last, step], Decimal.isWritable n = true)
    (hbody : ∀ m, walk l.body m = .ok body m)
    (hclimbs : ∀ s ∈ body, Climbs (evaluate rounds depth) l.name Class s)
    (hassign : GoesOnWithin l.name (capped m.loopBound last) step Class)
    (hstart : first ≤ capped m.loopBound last → Class (l.entered first m₁)) (hstep : 1 ≤ step)
    {k : Nat} (hrounds : k < rounds) (hfar : capped m.loopBound last < first + k * step) :
    ∃ m', evaluate rounds (depth + 1) (.node l.node) none m = .ok .null m' := by
  obtain ⟨m', runs, hrun, hloops⟩ := run_of_climbs l.isAscii hbody hassign hclimbs hstep
    (hwritable first (by simp)) (isWritable_capped (hwritable last (by simp))) rounds 0 hrounds
    (Int.le_refl first) hfar hstart (l.isLooping_entered first m₁) (l.resolve?_entered first m₁)
  obtain ⟨outer, hloops⟩ := List.head?_eq_some_iff.mp hloops
  refine ⟨{ m' with frame := { m'.frame with loops := outer } }, ?_⟩
  rw [evaluate_node_eq hbounds hwritable, Eval.bind_of_ok hrun,
    Eval.bind_of_ok (popLoop_of_loops hloops)]
  rfl

/-- A loop that does not climb, and does not start beyond its end, never returns. -/
theorem evaluate_of_sinking (hbounds : l.bounds (evaluate rounds depth) m =
      .ok (.int first, .int last, .int step) m₁)
    (hwritable : ∀ n ∈ [first, last, step], Decimal.isWritable n = true)
    (hbody : ∀ m, walk l.body m = .ok body m)
    (hpasses : ∀ s ∈ body, Passes (evaluate rounds depth) l.name Class s)
    (hassign : GoesOnWithin l.name (capped m.loopBound last) step Class)
    (hstart : first ≤ capped m.loopBound last → Class (l.entered first m₁)) (hstep : step ≤ 0)
    (hle : first ≤ capped m.loopBound last) :
    ∃ f m', evaluate rounds (depth + 1) (.node l.node) none m = .error f m' := by
  obtain ⟨f, m', hrun⟩ := run_of_sinking l.isAscii hbody hassign hpasses hstep rounds 0 hle
    (fun _ ↦ hstart hle) (l.isLooping_entered first m₁) (l.resolve?_entered first m₁)
  exact ⟨f, m', (evaluate_node_eq hbounds hwritable).trans (Eval.bind_of_error hrun _)⟩

/-- A body that goes on is evaluated once more behind `k` rounds exactly if the number for that is
not beyond the end, and can be written. -/
theorem exists_comesTo_iff (hbounds : l.bounds (evaluate rounds depth) m =
      .ok (.int first, .int last, .int step) m₁)
    (hwritable : ∀ n ∈ [first, last, step], Decimal.isWritable n = true)
    (hbody : ∀ m, walk l.body m = .ok body m)
    (hpasses : ∀ s ∈ body, Passes (evaluate rounds depth) l.name Class s)
    (hassign : GoesOnWithin l.name (capped m.loopBound last) step Class)
    (hstart : first ≤ capped m.loopBound last → Class (l.entered first m₁)) (k : Nat) :
    (∃ m', ComesTo (evaluate rounds depth) l.node k m m') ↔
      first ≤ capped m.loopBound last ∧ first + k * step ≤ capped m.loopBound last ∧
        Decimal.isWritable (first + k * step) = true := by
  rw [← forall_progression_iff (hwritable first (by simp)),
    ← begins_iff l.isAscii hbody hassign hpasses 0 (fun hle _ ↦ hstart hle)
      (l.isLooping_entered first m₁) (l.resolve?_entered first m₁)]
  simp only [comesTo_iff hbounds hwritable]
  exact exists_comm

/-- A bound on loops caps the end of a loop and not the number of its rounds. If the body always
returns and does not lower the variable, the loop returns after at most as many rounds as the bound
says, where that many steps lead from the start beyond the capped end, or where the start lies
beyond it. For a body that leaves the variable alone nothing less will do, except that a number with
too many digits makes the loop fail before that. -/
theorem ends_within_bound (hbounds : l.bounds (evaluate rounds depth) m =
      .ok (.int first, .int last, .int step) m₁)
    (hwritable : ∀ n ∈ [first, last, step], Decimal.isWritable n = true)
    (hbody : ∀ m, walk l.body m = .ok body m)
    (hclimbs : ∀ s ∈ body, Climbs (evaluate rounds depth) l.name Class s)
    (hassign : GoesOnWithin l.name (capped m.loopBound last) step Class)
    (hstart : first ≤ capped m.loopBound last → Class (l.entered first m₁)) (hbound : 0 < m.loopBound)
    (hrounds : m.loopBound.toNat < rounds) :
    (capped m.loopBound last < first ∨ capped m.loopBound last < first + m.loopBound * step →
      EndsWithin (evaluate rounds depth) l.node m.loopBound.toNat m ∧
        ∃ m', evaluate rounds (depth + 1) (.node l.node) none m = .ok .null m') ∧
      ((∀ s ∈ body, Passes (evaluate rounds depth) l.name Class s) →
        (EndsWithin (evaluate rounds depth) l.node m.loopBound.toNat m ↔
          capped m.loopBound last < first ∨
            capped m.loopBound last < first + m.loopBound * step ∨
            Decimal.isWritable (first + m.loopBound * step) = false)) := by
  have hcast : (m.loopBound.toNat : Int) = m.loopBound := Int.toNat_of_nonneg (by omega)
  refine ⟨fun hhigh ↦ ⟨fun m' hcomes ↦ ?_, ?_⟩, fun hpasses ↦ ?_⟩
  · obtain ⟨ss, hbegins⟩ := (comesTo_iff hbounds hwritable).mp hcomes
    have hle := le_of_begins l.isAscii hbody hassign hclimbs (fun hle _ ↦ hstart hle)
      (l.isLooping_entered first m₁) (l.resolve?_entered first m₁) hbegins
    rw [hcast] at hle
    omega
  · rcases Int.lt_or_le (capped m.loopBound last) first with hbeyond | hle
    · exact ⟨_, evaluate_of_beyond hbounds hwritable (by omega) hbeyond⟩
    · have hfar : capped m.loopBound last < first + m.loopBound.toNat * step := by
        rw [hcast]
        exact hhigh.resolve_left (Int.not_lt.mpr hle)
      have hrises : 0 < m.loopBound.toNat * step := by omega
      exact evaluate_of_climbs hbounds hwritable hbody hclimbs hassign hstart
        (Int.pos_of_mul_pos_right hrises (by omega)) hrounds hfar
  · rw [EndsWithin, ← not_exists, exists_comesTo_iff hbounds hwritable hbody hpasses hassign hstart,
      hcast]
    simp only [not_and_or, Int.not_le, Bool.not_eq_true]

theorem ends_within_bound_greeting :
    (∀ s ∈ [message], Climbs (evaluate 6 2) "i" HoldsWritable s) ∧
      GoesOnWithin "i" (capped 5 10) 3 HoldsWritable ∧
      HoldsWritable (greeting.entered 1 { loopBound := 5 }) ∧
      capped 5 10 < 1 + (5 : Int) * 3 ∧
      EndsWithin (evaluate 6 2) greeting.node 5 { loopBound := 5 } ∧
      ∃ m, evaluate 6 3 (.node greeting.node) none { loopBound := 5 } = .ok .null m := by
  have hsmall : ∀ n ∈ [(1 : Int), 10, 3], n.natAbs < Nat.pow 10 2 := by decide
  have hclimbs : ∀ s ∈ [message], Climbs (evaluate 6 2) "i" HoldsWritable s :=
    List.forall_mem_singleton.mpr (passes_message 6 0).climbs
  have hstart : HoldsWritable (greeting.entered 1 { loopBound := 5 }) := .assign _ isWritable_one
  have hbounds := greeting.bounds_of_small (evaluate 6 2) { loopBound := 5 } rfl rfl rfl hsmall
  obtain ⟨hwithin, -⟩ := ends_within_bound hbounds (fun n hn ↦ isWritable_small (hsmall n hn))
    (fun m ↦ walk_ofList _ m) hclimbs (goesOn_holdsWritable _ _) (fun _ ↦ hstart) (by decide)
    (by decide)
  exact ⟨hclimbs, goesOn_holdsWritable _ _, hstart, by decide, hwithin (.inr (by decide))⟩

/-- A loop over zero and one that shows its variable. -/
def startingAtZero : CountingLoop where
  name := "i"
  isAscii := greeting.isAscii
  start := .int 0
  stop := .int 1
  step := .int 1
  body := .tokens (.ofList [message])

/-- Under a bound of one this loop makes two rounds, though its body returns for every number. -/
theorem bound_exceeded : ¬ ∀ (l : CountingLoop) (rounds depth : Nat) (m m₁ : Machine)
    (first last step : Int) (body : List Value) (Class : Machine → Prop),
    l.bounds (evaluate rounds depth) m = .ok (.int first, .int last, .int step) m₁ →
    (∀ m, walk l.body m = .ok body m) →
    (∀ s ∈ body, Climbs (evaluate rounds depth) l.name Class s) →
    GoesOnWithin l.name (capped m.loopBound last) step Class → Class (l.entered first m₁) →
    0 < m.loopBound → EndsWithin (evaluate rounds depth) l.node m.loopBound.toNat m := by
  intro h
  have hsmall : ∀ n ∈ [(0 : Int), 1, 1], n.natAbs < Nat.pow 10 2 := by decide
  have hbounds :=
    startingAtZero.bounds_of_small (evaluate 3 2) { loopBound := 1 } rfl rfl rfl hsmall
  have hpasses := passes_message 3 0
  have hbody (m : Machine) : walk startingAtZero.body m = .ok [message] m := walk_ofList _ m
  have hstart : HoldsWritable (startingAtZero.entered 0 { loopBound := 1 }) :=
    .assign _ (isWritable_small (by decide))
  have hends := h startingAtZero 3 2 { loopBound := 1 } { loopBound := 1 } 0 1 1 [message]
    HoldsWritable hbounds hbody (List.forall_mem_singleton.mpr hpasses.climbs)
    (goesOn_holdsWritable _ _) hstart (by decide)
  have hcomesTo := exists_comesTo_iff hbounds (fun n hn ↦ isWritable_small (hsmall n hn)) hbody
    (List.forall_mem_singleton.mpr hpasses) (goesOn_holdsWritable _ _) (fun _ ↦ hstart) 1
  obtain ⟨m', hcomes⟩ := hcomesTo.mpr ⟨by decide, by decide, isWritable_small (by decide)⟩
  exact hends m' hcomes

/-! Counting down -/

/-- How many of the numbers `first`, `first - step`, … are not below `last`. -/
def downCount (first last step : Int) : Nat :=
  roundCount (-first) (-last) step

theorem downCount_eq_zero_iff {first last step : Int} (hstep : 1 ≤ step) :
    downCount first last step = 0 ↔ first < last := by
  unfold downCount
  rcases Int.lt_or_le first last with h | h
  · rw [roundCount_of_lt (by omega)]
    simp [h]
  · rw [roundCount_of_le hstep (by omega)]
    simp [Int.not_lt.mpr h]

theorem resolve?_leaving (m : Machine) (name : String) :
    (leaving m).resolve? name = m.resolve? name :=
  rfl

/-- Behind some rounds the variable is that many steps further. -/
theorem value_of_rounds (l : CountingLoop) {evaluate : Evaluator} {i : Int} {n : Nat}
    {m m' : Machine} (h : Rounds evaluate l.name step body i n m m')
    (hvalue : m.resolve? l.name = some (.int i)) :
    m'.resolve? l.name = some (.int (i + n * step)) := by
  induction h with
  | none i m => simpa using hvalue
  | @more i n m m₁ m' _ _ _ _ ih =>
    rw [← progression_succ]
    exact ih (m₁.resolve?_assign l.isAscii _ _)

/-- Rounds that end where they began are none. -/
theorem eq_zero_of_rounds (l : CountingLoop) {evaluate : Evaluator} {i : Int} {n : Nat}
    {m m' : Machine} (hstep : step ≠ 0) (h : Rounds evaluate l.name step body i n m m')
    (hvalue : m.resolve? l.name = some (.int i)) (hsame : leaving m = leaving m') : n = 0 := by
  have hend := l.value_of_rounds h hvalue
  rw [← resolve?_leaving, ← hsame, resolve?_leaving, hvalue] at hend
  have heq : i = i + n * step := by
    injection hend with hend
    injection hend
  have hzero : (n : Int) = 0 := (Int.mul_eq_zero.mp (by omega)).resolve_right hstep
  omega

/-- A loop with a negative step does not count down. If it starts beyond its end, it makes no round.
Otherwise it goes on below its start and never returns: it makes the round for every number that can
be written, and fails at the first that cannot. So it makes the rounds that a count down to its end
should make only if there are none of these, and the start lies beyond the bound on loops. -/
theorem counts_down_iff {k : Int} (hk : 1 ≤ k) (hbounds : l.bounds (evaluate rounds depth) m =
      .ok (.int first, .int last, .int (-k)) m₁)
    (hwritable : ∀ n ∈ [first, last, -k], Decimal.isWritable n = true)
    (hbody : ∀ m, walk l.body m = .ok body m)
    (hpasses : ∀ s ∈ body, Passes (evaluate rounds depth) l.name Class s)
    (hassign : GoesOnWithin l.name (capped m.loopBound last) (-k) Class)
    (hstart : first ≤ capped m.loopBound last → Class (l.entered first m₁)) (hrounds : 0 < rounds) :
    ((∃ m₂, evaluate rounds (depth + 1) (.node l.node) none m = .ok .null (leaving m₂) ∧
        Rounds (evaluate rounds depth) l.name (-k) body first (downCount first last k)
          (l.entered first m₁) m₂) ↔
      capped m.loopBound last < first ∧ first < last) ∧
    (capped m.loopBound last < first →
      EndsWithin (evaluate rounds depth) l.node 0 m ∧
        evaluate rounds (depth + 1) (.node l.node) none m =
          .ok .null (leaving (l.entered first m₁))) ∧
    (first ≤ capped m.loopBound last →
      (∃ f m', evaluate rounds (depth + 1) (.node l.node) none m = .error f m') ∧
        ∀ j : Nat, ((∃ m', ComesTo (evaluate rounds depth) l.node j m m') ↔
            Decimal.isWritable (first - j * k) = true) ∧
          ∀ m', ComesTo (evaluate rounds depth) l.node j m m' →
            m'.resolve? l.name = some (.int (first - j * k))) := by
  have hbelow (j : Nat) : first + j * -k = first - j * k := by
    rw [Int.mul_neg, Int.sub_eq_add_neg]
  have hsinks := evaluate_of_sinking hbounds hwritable hbody hpasses hassign hstart (by omega)
  have hcomesTo := exists_comesTo_iff hbounds hwritable hbody hpasses hassign hstart
  refine ⟨⟨?_, ?_⟩, fun hbeyond ↦ ⟨fun m' hcomes ↦ ?_, ?_⟩, fun hle ↦ ⟨hsinks hle, fun j ↦
    ⟨?_, fun m' hcomes ↦ ?_⟩⟩⟩
  · rintro ⟨m₂, hreturns, hcount⟩
    rcases Int.lt_or_le (capped m.loopBound last) first with hbeyond | hle
    · rw [evaluate_of_beyond hbounds hwritable hrounds hbeyond] at hreturns
      have hsame : leaving (l.entered first m₁) = leaving m₂ := by
        injection hreturns
      have hnone := l.eq_zero_of_rounds (by omega) hcount (l.resolve?_entered first m₁) hsame
      exact ⟨hbeyond, (downCount_eq_zero_iff hk).mp hnone⟩
    · obtain ⟨f, m', hfails⟩ := hsinks hle
      rw [hfails] at hreturns
      cases hreturns
  · rintro ⟨hbeyond, hempty⟩
    refine ⟨l.entered first m₁, evaluate_of_beyond hbounds hwritable hrounds hbeyond, ?_⟩
    rw [(downCount_eq_zero_iff hk).mpr hempty]
    exact .none _ _
  · have hfirst := (hcomesTo 0).mp ⟨m', hcomes⟩
    omega
  · exact evaluate_of_beyond hbounds hwritable hrounds hbeyond
  · rw [hcomesTo, hbelow]
    have hnonneg : 0 ≤ j * k := Int.mul_nonneg (by omega) (by omega)
    exact ⟨fun h ↦ h.2.2, fun h ↦ ⟨hle, by omega, h⟩⟩
  · obtain ⟨ss, hbegins⟩ := (comesTo_iff hbounds hwritable).mp hcomes
    rw [← hbelow]
    exact value_of_begins l.isAscii hbody hassign hpasses (fun hle _ ↦ hstart hle)
      (l.isLooping_entered first m₁) (l.resolve?_entered first m₁) hbegins

/-- A loop from three down to one that shows its variable. -/
def descending : CountingLoop where
  name := "i"
  isAscii := greeting.isAscii
  start := .int 3
  stop := .int 1
  step := .int (-1)
  body := .tokens (.ofList [message])

/-- The same loop with its ends exchanged goes below its start. -/
def sinking : CountingLoop :=
  { descending with start := .int 1, stop := .int 3 }

theorem counts_down_iff_greeting :
    (∀ s ∈ [message], Passes (evaluate 4 2) "i" HoldsWritable s) ∧
      GoesOnWithin "i" (capped 1000000 3) (-1) HoldsWritable ∧
      HoldsWritable (sinking.entered 1 {}) ∧
      (∃ f m', evaluate 4 3 (.node sinking.node) none {} = .error f m') ∧
      ∃ m', ComesTo (evaluate 4 2) sinking.node 2 {} m' ∧ m'.resolve? "i" = some (.int (-1)) := by
  have hsmall : ∀ n ∈ [(1 : Int), 3, -1], n.natAbs < Nat.pow 10 2 := by decide
  have hpasses : ∀ s ∈ [message], Passes (evaluate 4 2) "i" HoldsWritable s :=
    List.forall_mem_singleton.mpr (passes_message 4 0)
  have hstart : HoldsWritable (sinking.entered 1 {}) := .assign _ isWritable_one
  obtain ⟨-, -, hbelow⟩ := counts_down_iff (k := 1) (by decide)
    (sinking.bounds_of_small _ {} rfl rfl rfl hsmall) (fun n hn ↦ isWritable_small (hsmall n hn))
    (fun m ↦ walk_ofList _ m) hpasses (goesOn_holdsWritable _ _) (fun _ ↦ hstart) (by decide)
  obtain ⟨hfails, hcomes⟩ := hbelow (by decide)
  obtain ⟨m', hround⟩ := (hcomes 2).1.mpr (isWritable_small (by decide))
  exact ⟨hpasses, goesOn_holdsWritable _ _, hstart, hfails, m', hround, (hcomes 2).2 m' hround⟩

/-- From three down to one there are three rounds to make, and the loop makes none of them. -/
theorem countdown_skipped : ¬ ∀ (l : CountingLoop) (rounds depth : Nat) (m m₁ : Machine)
    (first last k : Int) (body : List Value) (Class : Machine → Prop), 1 ≤ k →
    l.bounds (evaluate rounds depth) m = .ok (.int first, .int last, .int (-k)) m₁ →
    (∀ m, walk l.body m = .ok body m) →
    (∀ s ∈ body, Passes (evaluate rounds depth) l.name Class s) →
    (∀ m i, Class m → Decimal.isWritable i = true → Class (m.assign l.name (.int i) none)) →
    Class (l.entered first m₁) → downCount first last k < rounds →
    ∃ m₂, evaluate rounds (depth + 1) (.node l.node) none m = .ok .null (leaving m₂) ∧
      Rounds (evaluate rounds depth) l.name (-k) body first (downCount first last k)
        (l.entered first m₁) m₂ := by
  intro h
  have hsmall : ∀ n ∈ [(3 : Int), 1, -1], n.natAbs < Nat.pow 10 2 := by decide
  have hbounds := descending.bounds_of_small (evaluate 4 2) {} rfl rfl rfl hsmall
  obtain ⟨m₂, hreturns, hcount⟩ := h descending 4 2 {} {} 3 1 1 [message] HoldsWritable (by decide)
    hbounds (fun m ↦ walk_ofList _ m) (List.forall_mem_singleton.mpr (passes_message 4 0))
    (fun m _ _ hi ↦ .assign m hi) (.assign _ (isWritable_small (by decide))) (by decide)
  rw [evaluate_of_beyond hbounds (fun n hn ↦ isWritable_small (hsmall n hn)) (by decide)
    (by decide)] at hreturns
  have hsame : leaving (descending.entered 3 {}) = leaving m₂ := by
    injection hreturns
  have hnone :=
    descending.eq_zero_of_rounds (by decide) hcount (descending.resolve?_entered 3 {}) hsame
  exact absurd hnone (by decide)

end CountingLoop

end Semantics

end VbaTrace
