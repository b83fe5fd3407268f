import VbaTrace.Proofs.FloatRange
import VbaTrace.Proofs.IntegerOperations

/-!
Which operators fail on whole numbers. A chain of floating-point divisions stops at a divisor that is
zero or has no floating-point number, whichever comes first (`Value.foldlM_divide`), and its first
quotient may be too large (`Operator.fold_divide`). A zero gives the empty text here, but a number
that is too large is not caught.

So each operator has the fault that it fails with on given whole numbers, if any
(`Operator.fault?`), and otherwise a value (`Operator.Computes`); an operator node has exactly these
(`whole_operands_outcome`). Only the two divisions that give whole numbers fail on a zero.
-/

set_option autoImplicit false

namespace VbaTrace

/-- A divisor that has no floating-point number comes before every zero. -/
def HugeDivisor (ns : List Int) : Prop :=
  ∃ n ∈ ns.takeWhile (· ≠ 0), Number.rangeEnd ≤ n.natAbs

instance (ns : List Int) : Decidable (HugeDivisor ns) :=
  inferInstanceAs (Decidable (∃ n ∈ ns.takeWhile (· ≠ 0), Number.rangeEnd ≤ n.natAbs))

theorem hugeDivisor_cons {n : Int} (hn : n ≠ 0) (ns : List Int) :
    HugeDivisor (n :: ns) ↔ Number.rangeEnd ≤ n.natAbs ∨ HugeDivisor ns := by
  rw [HugeDivisor, List.takeWhile_cons_of_pos (by simpa using hn)]
  simp only [List.mem_cons, exists_eq_or_imp]
  rfl

theorem not_hugeDivisor_zero (ns : List Int) : ¬ HugeDivisor (0 :: ns) := by
  rintro ⟨n, hn, -⟩
  exact List.not_mem_nil hn

namespace Value

theorem divide_ints (a : Int) {b : Int} (hb : b ≠ 0) :
    divide (.int a) (.int b) =
      (Number.quotient? a b).elim (.error .overflow) fun x ↦ .ok (.float x) := by
  refine (if_neg (by simpa using hb)).trans ?_
  cases Number.quotient? a b <;> rfl

theorem divide_zero (x : Float) : divide (.float x) (.int 0) = .error .divisionByZero :=
  rfl

theorem divide_huge (x : Float) {n : Int} (hn : Number.rangeEnd ≤ n.natAbs) :
    divide (.float x) (.int n) = .error .overflow := by
  have hnone : intToFloat n = .error .overflow := by
    rw [intToFloat, (Number.ofInt?_eq_none_iff n).mpr hn]
  change (intToFloat n).bind _ = _
  rw [hnone]
  rfl

theorem divide_float (x : Float) {n : Int} (hn : n ≠ 0) {y : Float} (hy : Number.ofInt? n = some y) :
    divide (.float x) (.int n) = .ok (.float (x / y)) := by
  have hsome : intToFloat n = .ok y := by
    rw [intToFloat, hy]
  change (intToFloat n).bind _ = _
  rw [hsome]
  exact if_neg fun h ↦ hn ((Number.beq_zero_of_ofInt? hy).mp h)

/-- A chain of divisions stops at the first divisor that is zero or has no floating-point number. -/
theorem foldlM_divide (x : Float) (ns : List Int) :
    (HugeDivisor ns → (ns.map Value.int).foldlM divide (.float x) = .error .overflow) ∧
      (¬ HugeDivisor ns → 0 ∈ ns →
        (ns.map Value.int).foldlM divide (.float x) = .error .divisionByZero) ∧
      (¬ HugeDivisor ns → 0 ∉ ns → ∃ ys, ns.mapM Number.ofInt? = some ys ∧
        (ns.map Value.int).foldlM divide (.float x) = .ok (.float (ys.foldl (· / ·) x))) := by
  induction ns generalizing x with
  | nil =>
    refine ⟨?_, fun _ h ↦ absurd h List.not_mem_nil, fun _ _ ↦ ⟨[], rfl, rfl⟩⟩
    rintro ⟨n, hn, -⟩
    exact absurd hn List.not_mem_nil
  | cons n ns ih =>
    rw [List.map_cons, List.foldlM_cons]
    by_cases hzero : n = 0
    · subst hzero
      rw [divide_zero]
      exact ⟨fun h ↦ absurd h (not_hugeDivisor_zero ns), fun _ _ ↦ rfl,
        fun _ h ↦ absurd List.mem_cons_self h⟩
    rw [hugeDivisor_cons hzero]
    by_cases hhuge : Number.rangeEnd ≤ n.natAbs
    · rw [divide_huge x hhuge]
      exact ⟨fun _ ↦ rfl, fun h ↦ absurd (.inl hhuge) h, fun h ↦ absurd (.inl hhuge) h⟩
    obtain ⟨y, hy⟩ := Option.ne_none_iff_exists'.mp (mt (Number.ofInt?_eq_none_iff n).mp hhuge)
    rw [divide_float x hzero hy]
    obtain ⟨hoverflow, hempty, hfloat⟩ := ih (x / y)
    refine ⟨fun h ↦ hoverflow (h.resolve_left hhuge), fun h hmem ↦ ?_, fun h hmem ↦ ?_⟩
    · exact hempty (fun h' ↦ h (.inr h')) ((List.mem_cons.mp hmem).resolve_left (Ne.symm hzero))
    · obtain ⟨ys, hys, hfold⟩ := hfloat (fun h' ↦ h (.inr h')) fun h' ↦ hmem (.tail _ h')
      refine ⟨y :: ys, ?_, hfold⟩
      rw [List.mapM_cons, hy, hys]
      rfl

end Value

namespace Operator

/-- A chain of divisions leaves the range of floating-point numbers before it meets a zero. -/
def LeavesRange (a b : Int) (ns : List Int) : Prop :=
  b ≠ 0 ∧ (Number.rangeEnd * b.natAbs ≤ a.natAbs ∨ HugeDivisor ns)

instance (a b : Int) (ns : List Int) : Decidable (LeavesRange a b ns) :=
  inferInstanceAs (Decidable (b ≠ 0 ∧ (Number.rangeEnd * b.natAbs ≤ a.natAbs ∨ HugeDivisor ns)))

theorem fold_divide (a b : Int) (ns : List Int) :
    (LeavesRange a b ns →
      fold Value.divide ((a :: b :: ns).map Value.int) = .error .overflow) ∧
      (¬ LeavesRange a b ns → 0 ∈ b :: ns →
        fold Value.divide ((a :: b :: ns).map Value.int) = .error .divisionByZero) ∧
      (¬ LeavesRange a b ns → 0 ∉ b :: ns → ∃ x ys, Number.quotient? a b = some x ∧
        ns.mapM Number.ofInt? = some ys ∧
        fold Value.divide ((a :: b :: ns).map Value.int) = .ok (.float (ys.foldl (· / ·) x))) := by
  have hfold : fold Value.divide ((a :: b :: ns).map Value.int) =
      (Value.divide (.int a) (.int b)).bind ((ns.map Value.int).foldlM Value.divide) := rfl
  rw [hfold]
  by_cases hzero : b = 0
  · subst hzero
    exact ⟨fun h ↦ absurd rfl h.1, fun _ _ ↦ rfl, fun _ h ↦ absurd List.mem_cons_self h⟩
  rw [Value.divide_ints a hzero]
  by_cases hlarge : Number.rangeEnd * b.natAbs ≤ a.natAbs
  · rw [(Number.quotient?_eq_none_iff a hzero).mpr hlarge]
    exact ⟨fun _ ↦ rfl, fun h ↦ absurd ⟨hzero, .inl hlarge⟩ h,
      fun h ↦ absurd ⟨hzero, .inl hlarge⟩ h⟩
  obtain ⟨x, hx⟩ := Option.ne_none_iff_exists'.mp
    (mt (Number.quotient?_eq_none_iff a hzero).mp hlarge)
  rw [hx]
  obtain ⟨hoverflow, hempty, hfloat⟩ := Value.foldlM_divide x ns
  refine ⟨fun h ↦ hoverflow (h.2.resolve_left hlarge), fun h hmem ↦ ?_, fun h hmem ↦ ?_⟩
  · exact hempty (fun h' ↦ h ⟨hzero, .inr h'⟩)
      ((List.mem_cons.mp hmem).resolve_left (Ne.symm hzero))
  · obtain ⟨ys, hys, hfold⟩ := hfloat (fun h' ↦ h ⟨hzero, .inr h'⟩) fun h' ↦ hmem (.tail _ h')
    exact ⟨x, ys, rfl, hys, hfold⟩

/-- The fault of an operator on whole numbers that comes through. -/
def fault? (op : Operator) (a b : Int) (ns : List Int) : Option Fault :=
  match op with
  | divide => if LeavesRange a b ns then some .overflow else none
  | floorDivide | modulo => if 0 ∈ b :: ns then some .divisionByZero else none
  | _ => none

section

variable {op : Operator} {f : Int → Int → Int} (hf : op.onInts? = some f)
include hf

theorem fault?_of_onInts (a b : Int) (ns : List Int) :
    op.fault? a b ns =
      if op.refusesZero = true ∧ 0 ∈ b :: ns then some .divisionByZero else none := by
  cases op with
  | divide | concatenate => exact absurd hf.symm (Option.some_ne_none f)
  | floorDivide | modulo => simp only [fault?, refusesZero, true_and]
  | add | subtract | multiply | xor | and | or | eqv =>
    simp only [fault?, refusesZero, Bool.false_eq_true, false_and, if_false]

theorem not_catches_of_onInts : op.catches .divisionByZero = false := by
  cases op with
  | divide => exact absurd hf.symm (Option.some_ne_none f)
  | _ => rfl

end

/-- The value of an operator on whole numbers that it does not fail on. -/
inductive Computes (a b : Int) (ns : List Int) : Operator → Value → Prop
  | whole {op : Operator} {f : Int → Int → Int} (hf : op.onInts? = some f) :
    Computes a b ns op (.int ((b :: ns).foldl f a))
  | empty (h : 0 ∈ b :: ns) : Computes a b ns divide .empty
  | quotient (h : 0 ∉ b :: ns) {x : Float} {ys : List Float} (hx : Number.quotient? a b = some x)
    (hys : ns.mapM Number.ofInt? = some ys) : Computes a b ns divide (.float (ys.foldl (· / ·) x))

end Operator

namespace Semantics

/-- A division by zero gives the empty text. -/
theorem evalOperation_divide_of_zero {evaluate : Evaluator} {operands values : List Value}
    {m m₁ : Machine} (h : evalOperands evaluate operands m = .ok values m₁)
    (hvalues : ∀ v ∈ values, isScalar v = true)
    (hfold : Operator.fold Value.divide values = .error .divisionByZero) :
    evalOperation evaluate .divide operands m = .ok .empty m₁ := by
  have hcombine : combine evaluate Value.divide operands m = .error .divisionByZero m₁ := by
    rw [combine_of_scalars h hvalues, hfold]
    rfl
  exact Eval.handle_of_error hcombine _ _

section

variable {evaluate : Evaluator} {operands : List Value} {a b : Int} {ns : List Int} {m m₁ : Machine}
  (h : evalOperands evaluate operands m = .ok ((a :: b :: ns).map Value.int) m₁)
include h

theorem evalOperation_outcome_of_onInts {op : Operator} {f : Int → Int → Int}
    (hf : op.onInts? = some f) :
    (∀ e, op.fault? a b ns = some e → evalOperation evaluate op operands m = .error e m₁) ∧
      (op.fault? a b ns = none → ∃ v, op.Computes a b ns v ∧
        evalOperation evaluate op operands m = .ok v m₁) := by
  have hop : op ≠ .concatenate := by
    rintro rfl
    exact absurd hf.symm (Option.some_ne_none f)
  have hfold := Operator.fold_ints hf a (b :: ns)
  rw [Operator.fault?_of_onInts hf]
  by_cases hzero : op.refusesZero = true ∧ 0 ∈ b :: ns
  · rw [if_pos hzero] at hfold ⊢
    refine ⟨fun e he ↦ ?_, fun hnone ↦ absurd hnone (Option.some_ne_none _)⟩
    cases he
    exact evalOperation_of_fold_error hop h (List.forall_mem_map.mpr fun _ _ ↦ rfl) hfold
      (Operator.not_catches_of_onInts hf)
  · rw [if_neg hzero]
    exact ⟨fun e he ↦ absurd he.symm (Option.some_ne_none e), fun _ ↦
      ⟨_, .whole hf, evalOperation_ints hf h fun hrefuses hmem ↦ hzero ⟨hrefuses, hmem⟩⟩⟩

theorem evalOperation_outcome_divide :
    (∀ e, Operator.divide.fault? a b ns = some e →
      evalOperation evaluate .divide operands m = .error e m₁) ∧
      (Operator.divide.fault? a b ns = none → ∃ v, Operator.divide.Computes a b ns v ∧
        evalOperation evaluate .divide operands m = .ok v m₁) := by
  have hop : Operator.divide ≠ .concatenate := nofun
  have hscalars : ∀ v ∈ (a :: b :: ns).map Value.int, isScalar v = true :=
    List.forall_mem_map.mpr fun _ _ ↦ rfl
  obtain ⟨hoverflow, hempty, hfloat⟩ := Operator.fold_divide a b ns
  rw [Operator.fault?]
  by_cases hrange : Operator.LeavesRange a b ns
  · rw [if_pos hrange]
    refine ⟨fun e he ↦ ?_, fun hnone ↦ absurd hnone (Option.some_ne_none _)⟩
    cases he
    exact evalOperation_of_fold_error hop h hscalars (hoverflow hrange) rfl
  rw [if_neg hrange]
  refine ⟨fun e he ↦ absurd he.symm (Option.some_ne_none e), fun _ ↦ ?_⟩
  by_cases hzero : 0 ∈ b :: ns
  · exact ⟨_, .empty hzero, evalOperation_divide_of_zero h hscalars (hempty hrange hzero)⟩
  · obtain ⟨x, ys, hx, hys, hfold⟩ := hfloat hrange hzero
    exact ⟨_, .quotient hzero hx hys, evalOperation_of_fold_ok hop h hscalars hfold⟩

end

/-- An operator on two whole numbers or more returns a value, unless a zero divides in one of the
divisions that give whole numbers, or a chain of floating-point divisions leaves their range. -/
theorem whole_operands_outcome (rounds depth : Nat) (own : Arguments) {op : Operator}
    (hop : op ≠ .concatenate) {operands : List Value} {a b : Int} {ns : List Int} {m m₁ : Machine}
    (h : evalOperands (evaluate rounds depth) operands m = .ok ((a :: b :: ns).map Value.int) m₁) :
    (∀ e, op.fault? a b ns = some e →
      evaluate rounds (depth + 1) (.node (.operation op operands)) own m = .error e m₁) ∧
    (op.fault? a b ns = none → ∃ v, op.Computes a b ns v ∧
      evaluate rounds (depth + 1) (.node (.operation op operands)) own m = .ok v m₁) := by
  cases hints : op.onInts? with
  | some f => exact evalOperation_outcome_of_onInts h hints
  | none =>
    cases op with
    | divide => exact evalOperation_outcome_divide h
    | concatenate => exact absurd rfl hop
    | _ => exact absurd hints (Option.some_ne_none _)

/-- A zero that comes last in a chain ends a remainder, and gives the empty text in a division. A
number that ends the range cannot be divided, even by one. -/
theorem whole_operands_outcome_zero_last :
    evaluate 1 2 (.node (.operation .modulo [.int 7, .int 2, .int 0])) none {} =
      .error .divisionByZero {} ∧
    evaluate 1 2 (.node (.operation .divide [.int 7, .int 2, .int 0])) none {} =
      .ok .empty {} ∧
    evaluate 1 2 (.node (.operation .divide [.int Number.rangeEnd, .int 1])) none {} =
      .error .overflow {} := by
  have hchain : evalOperands (evaluate 1 1) [.int 7, .int 2, .int 0] {} =
      .ok ([7, 2, 0].map Value.int) {} :=
    evalOperands_of_gives (.cons (gives_digit (by decide)) (.cons (gives_digit (by decide))
      (.cons (gives_digit (by decide)) .nil)))
  have hwritable : Decimal.isWritable Number.rangeEnd = true :=
    Decimal.isWritable_of_lt (by decide : 309 ≤ Decimal.digitLimit) (by decide +kernel)
  have hend : evalOperands (evaluate 1 1) [.int Number.rangeEnd, .int 1] {} =
      .ok ([(Number.rangeEnd : Int), 1].map Value.int) {} :=
    evalOperands_pair (gives_int hwritable) (gives_digit (by decide))
  have hremainder : Operator.modulo.fault? 7 2 [0] = some .divisionByZero := rfl
  have hquotient : Operator.divide.fault? 7 2 [0] = none := by decide +kernel
  have hoverflow : Operator.divide.fault? Number.rangeEnd 1 [] = some .overflow := by
    decide +kernel
  have hmodulo : Operator.modulo ≠ .concatenate := nofun
  have hdivide : Operator.divide ≠ .concatenate := nofun
  refine ⟨(whole_operands_outcome 1 1 none hmodulo hchain).1 _ hremainder, ?_,
    (whole_operands_outcome 1 1 none hdivide hend).1 _ hoverflow⟩
  obtain ⟨v, hv, hvalue⟩ := (whole_operands_outcome 1 1 none hdivide hchain).2 hquotient
  cases hv with
  | whole hf => exact absurd hf.symm (Option.some_ne_none _)
  | empty => exact hvalue
  | quotient hzero => exact absurd (by decide) hzero

/-- Neither of the two divisions that give whole numbers always returns on whole numbers. -/
theorem whole_divisions_fail : ¬ ∃ op ∈ [Operator.floorDivide, .modulo],
    ∀ (operands : List Value) (a b : Int) (ns : List Int) (m m₁ : Machine),
      evalOperands (evaluate 1 1) operands m = .ok ((a :: b :: ns).map Value.int) m₁ →
      ∃ v m', evaluate 1 2 (.node (.operation op operands)) none m = .ok v m' := by
  have hoperands : evalOperands (evaluate 1 1) [.int 1, .int 0] {} =
      .ok ([1, 0].map Value.int) {} :=
    evalOperands_pair (gives_digit (by decide)) (gives_digit (by decide))
  rintro ⟨op, hop, hreturns⟩
  obtain ⟨v, m', hvalue⟩ := hreturns [.int 1, .int 0] 1 0 [] {} {} hoperands
  have hfails : evalOperation (evaluate 1 1) op [.int 1, .int 0] {} =
      .error .divisionByZero {} := by
    simp only [List.mem_cons, List.not_mem_nil, or_false] at hop
    rcases hop with rfl | rfl
    · exact (evalOperation_outcome_of_onInts hoperands rfl).1 _ rfl
    · exact (evalOperation_outcome_of_onInts hoperands rfl).1 _ rfl
  exact nomatch hfails.symm.trans hvalue

end Semantics

end VbaTrace
