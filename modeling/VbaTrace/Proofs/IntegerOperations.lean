import VbaTrace.Proofs.Bits
import VbaTrace.Proofs.MixedSums

/-!
Operators on whole numbers. All operators but division and concatenation stand for an operation on
whole numbers (`Operator.onInts?`). A fold over whole numbers is the fold of that operation, unless
the operator refuses a zero and one comes after the first number (`Operator.fold_ints`). What the
first attempt of an operator node gives is the value of the node (`evalOperation_of_fold_ok`), and a
fault of it that the operator does not catch is the fault of the node
(`evalOperation_of_fold_error`).

From this the laws of bits carry over to the evaluation of bitwise operator nodes (`bitwise_laws`).
-/

set_option autoImplicit false

namespace VbaTrace

namespace Operator

/-- The operation on whole numbers that an operator stands for. -/
def onInts? : Operator → Option (Int → Int → Int)
  | add => some (· + ·)
  | subtract => some (· - ·)
  | multiply => some (· * ·)
  | floorDivide => some Int.fdiv
  | modulo => some Int.fmod
  | xor => some Int.xor
  | and => some Int.land
  | or => some Int.lor
  | eqv => some fun a b ↦ Int.lnot (Int.xor a b)
  | divide | concatenate => none

/-- The operator has no result for a zero on its right. -/
def refusesZero : Operator → Bool
  | divide | floorDivide | modulo => true
  | _ => false

/-- The faults of the first attempt that the operator does not pass on. -/
def catches : Operator → Fault → Bool
  | modulo, _ => false
  | divide, f => f.isWrongType || f == .divisionByZero
  | multiply, f | floorDivide, f | subtract, f | concatenate, f => f.isWrongType
  | add, f | xor, f | and, f | or, f | eqv, f => f.isWrongType || f.isUnsupported

section

variable {op : Operator} {f : Int → Int → Int} (hf : op.onInts? = some f)
include hf

theorem apply_ints (a b : Int) :
    op.apply (.int a) (.int b) =
      if op.refusesZero = true ∧ b = 0 then .error .divisionByZero else .ok (.int (f a b)) := by
  cases op with
  | add | subtract | multiply =>
    cases hf
    rfl
  | floorDivide | modulo =>
    cases hf
    by_cases hb : b = 0
    · subst hb
      rfl
    · rw [if_neg fun h ↦ hb h.2]
      exact if_neg (by simpa using hb)
  | xor =>
    cases hf
    exact congrArg (Except.ok ∘ Value.int) (Number.bitXor_eq_xor a b)
  | and =>
    cases hf
    exact congrArg (Except.ok ∘ Value.int) (Number.bitAnd_eq_land a b)
  | or =>
    cases hf
    exact congrArg (Except.ok ∘ Value.int) (Number.bitOr_eq_lor a b)
  | eqv =>
    cases hf
    have hbits : Number.bitOr (Number.bitAnd a b) (Number.complement (Number.bitOr a b)) =
        Int.lnot (Int.xor a b) := by
      rw [Number.bitOr_eq_lor, Number.bitAnd_eq_land, Number.complement_eq_lnot,
        Number.bitOr_eq_lor, Number.lor_land_lnot_lor]
    exact congrArg (Except.ok ∘ Value.int) hbits
  | divide | concatenate => exact absurd hf.symm (Option.some_ne_none f)

theorem foldlM_ints (a : Int) (ns : List Int) :
    (ns.map Value.int).foldlM op.apply (.int a) =
      if op.refusesZero = true ∧ 0 ∈ ns then .error .divisionByZero
      else .ok (.int (ns.foldl f a)) := by
  induction ns generalizing a with
  | nil =>
    rw [if_neg fun h ↦ List.not_mem_nil h.2]
    rfl
  | cons b ns ih =>
    rw [List.map_cons, List.foldlM_cons, apply_ints hf]
    by_cases hb : op.refusesZero = true ∧ b = 0
    · rw [if_pos hb, if_pos ⟨hb.1, hb.2 ▸ List.mem_cons_self⟩]
      rfl
    · rw [if_neg hb]
      change (ns.map Value.int).foldlM op.apply (.int (f a b)) = _
      rw [ih, List.foldl_cons]
      have hzero : op.refusesZero = true ∧ 0 ∈ b :: ns ↔ op.refusesZero = true ∧ 0 ∈ ns := by
        rw [List.mem_cons]
        exact ⟨fun h ↦ ⟨h.1, h.2.resolve_left fun h₀ ↦ hb ⟨h.1, h₀.symm⟩⟩,
          fun h ↦ ⟨h.1, .inr h.2⟩⟩
      simp only [hzero]

/-- Whole numbers are combined as the operation says, if no zero is in the way. -/
theorem fold_ints (a : Int) (ns : List Int) :
    fold op.apply ((a :: ns).map Value.int) =
      if op.refusesZero = true ∧ 0 ∈ ns then .error .divisionByZero
      else .ok (.int (ns.foldl f a)) := by
  rw [List.map_cons]
  exact foldlM_ints hf a ns

end

end Operator

namespace Semantics

/-! The first attempt -/

section

variable {evaluate : Evaluator} {op : Operator} {operands values : List Value} {m m₁ : Machine}

/-- What the first attempt gives is the value of the node. -/
theorem evalOperation_of_fold_ok (hop : op ≠ .concatenate)
    (h : evalOperands evaluate operands m = .ok values m₁)
    (hvalues : ∀ v ∈ values, isScalar v = true) {r : Value}
    (hfold : Operator.fold op.apply values = .ok r) :
    evalOperation evaluate op operands m = .ok r m₁ := by
  have hcombine : combine evaluate op.apply operands m = .ok r m₁ := by
    rw [combine_of_scalars h hvalues, hfold]
    rfl
  cases op with
  | add | xor | and | or | eqv => exact Eval.handle_of_ok (Eval.handle_of_ok hcombine _ _) _ _
  | subtract | multiply | divide | floorDivide => exact Eval.handle_of_ok hcombine _ _
  | modulo =>
    have hmodulo : combineResolved evaluate Operator.modulo.apply operands m = .ok r m₁ := by
      rw [combineResolved_of_scalars h hvalues, hfold]
      rfl
    exact hmodulo
  | concatenate => exact absurd rfl hop

/-- A fault of the first attempt that the operator does not catch is the fault of the node. -/
theorem evalOperation_of_fold_error (hop : op ≠ .concatenate)
    (h : evalOperands evaluate operands m = .ok values m₁)
    (hvalues : ∀ v ∈ values, isScalar v = true) {f : Fault}
    (hfold : Operator.fold op.apply values = .error f) (hf : op.catches f = false) :
    evalOperation evaluate op operands m = .error f m₁ := by
  have hcombine : combine evaluate op.apply operands m = .error f m₁ := by
    rw [combine_of_scalars h hvalues, hfold]
    rfl
  cases op with
  | add | xor | and | or | eqv =>
    obtain ⟨htype, hsupported⟩ := Bool.or_eq_false_iff.mp hf
    have hending := Eval.handle_of_error hcombine Fault.isUnsupported fun _ ↦ throw .exit
    rw [hsupported, if_neg Bool.false_ne_true] at hending
    refine (Eval.handle_of_error hending _ _).trans ?_
    rw [htype, if_neg Bool.false_ne_true]
  | subtract | multiply | divide | floorDivide =>
    refine (Eval.handle_of_error hcombine _ _).trans ?_
    exact if_neg (Bool.not_eq_true _ ▸ hf)
  | modulo =>
    have hmodulo : combineResolved evaluate Operator.modulo.apply operands m = .error f m₁ := by
      rw [combineResolved_of_scalars h hvalues, hfold]
      rfl
    exact hmodulo
  | concatenate => exact absurd rfl hop

theorem evalOperation_ints {f : Int → Int → Int} (hf : op.onInts? = some f) {a : Int}
    {ns : List Int} (h : evalOperands evaluate operands m = .ok ((a :: ns).map Value.int) m₁)
    (hzero : op.refusesZero = true → 0 ∉ ns) :
    evalOperation evaluate op operands m = .ok (.int (ns.foldl f a)) m₁ := by
  have hop : op ≠ .concatenate := by
    rintro rfl
    exact absurd hf.symm (Option.some_ne_none f)
  refine evalOperation_of_fold_ok hop h (List.forall_mem_map.mpr fun _ _ ↦ rfl) ?_
  rw [Operator.fold_ints hf, if_neg fun h ↦ hzero h.1 h.2]

end

/-! Laws of bits -/

section

variable {evaluate : Evaluator} {x y : Value} {m m₁ m₂ : Machine}

theorem evalOperands_pair {v w : Value} (hx : evalOperand evaluate x m = .ok v m₁)
    (hy : evalOperand evaluate y m₁ = .ok w m₂) :
    evalOperands evaluate [x, y] m = .ok [v, w] m₂ := by
  have hrest : evalOperands evaluate [y] m₁ = .ok [w] m₂ := by
    rw [evalOperands, Eval.bind_of_ok hy]
    rfl
  rw [evalOperands, Eval.bind_of_ok hx, Eval.bind_of_ok hrest]
  rfl

theorem evaluate_pair (op : Operator) {f : Int → Int → Int} (hf : op.onInts? = some f)
    (hzero : op.refusesZero = false) {rounds depth : Nat} {a b : Int}
    (h : evalOperands (Semantics.evaluate rounds depth) [x, y] m = .ok [.int a, .int b] m₁)
    (own : Arguments) :
    Semantics.evaluate rounds (depth + 1) (.node (.operation op [x, y])) own m =
      .ok (.int (f a b)) m₁ := by
  have hints : evalOperands (Semantics.evaluate rounds depth) [x, y] m =
      .ok ([a, b].map Value.int) m₁ := h
  exact evalOperation_ints hf hints fun htrue ↦ absurd htrue (hzero ▸ Bool.false_ne_true)

/-- As an operand, the pair is written first, which its operands have allowed. -/
theorem evalOperand_pair (op : Operator) {f : Int → Int → Int} (hf : op.onInts? = some f)
    (hzero : op.refusesZero = false) {rounds depth : Nat} {a b : Int} {m₂ : Machine}
    (hx : evalOperand (Semantics.evaluate rounds depth) x m = .ok (.int a) m₁)
    (hy : evalOperand (Semantics.evaluate rounds depth) y m₁ = .ok (.int b) m₂) :
    evalOperand (Semantics.evaluate rounds (depth + 1)) (.node (.operation op [x, y])) m =
      .ok (.int (f a b)) m₂ := by
  refine evalOperand_node_iff.mpr ⟨?_, evaluate_pair op hf hzero (evalOperands_pair hx hy) none⟩
  rw [Node.isWritable, allWritable, allWritable, isWritable_of_evalOperand hx rfl,
    isWritable_of_evalOperand hy rfl]
  rfl

/-- The order in which the same numbers come makes no difference. -/
theorem evalOperation_xor_perm {operands others : List Value} {ns ks : List Int}
    {m' m₁' : Machine} (hperm : ns.Perm ks)
    (hns : evalOperands evaluate operands m = .ok (ns.map Value.int) m₁)
    (hks : evalOperands evaluate others m' = .ok (ks.map Value.int) m₁') :
    ∃ n, evalOperation evaluate .xor operands m = .ok (.int n) m₁ ∧
      evalOperation evaluate .xor others m' = .ok (.int n) m₁' := by
  cases ns with
  | nil =>
    obtain rfl := List.nil_perm.mp hperm
    obtain rfl := List.eq_nil_of_length_eq_zero (length_of_evalOperands hns).symm
    obtain rfl := List.eq_nil_of_length_eq_zero (length_of_evalOperands hks).symm
    cases hns
    cases hks
    exact ⟨0, rfl, rfl⟩
  | cons a ns =>
    cases ks with
    | nil => exact absurd hperm.symm (List.not_perm_nil_cons a ns)
    | cons b ks =>
      refine ⟨ns.foldl Int.xor a, evalOperation_ints rfl hns Bool.noConfusion, ?_⟩
      rw [Number.foldl_xor_perm hperm]
      exact evalOperation_ints rfl hks Bool.noConfusion

theorem evalOperand_constant {n : Int} :
    (Decimal.isWritable n = true → evalOperand evaluate (.int n) m = .ok (.int n) m) ∧
      (Decimal.isWritable n = false → evalOperand evaluate (.int n) m = .error .wrongValue m) := by
  refine ⟨gives_int, fun hn ↦ ?_⟩
  have hresolved : (m.heap.resolve (.int n)).isWritable = false := hn
  exact evalOperand_of_not_isWritable hresolved

end

/-- The laws of bits hold for operands that give whole numbers, of any size and sign. A key undoes
itself, the order in a chain does not matter, an equivalence is the complement of an exclusive
disjunction, and what two numbers have in common and what they have together make up their sum. A
number that stands in the tree gives itself if it has a base-ten text, and fails otherwise. -/
theorem bitwise_laws (rounds depth : Nat) (own : Arguments) :
    (∀ (x y z : Value) (a k : Int) (m m₁ m₂ m₃ : Machine),
      evalOperand (evaluate rounds depth) x m = .ok (.int a) m₁ →
      evalOperand (evaluate rounds depth) y m₁ = .ok (.int k) m₂ →
      evalOperand (evaluate rounds (depth + 1)) z m₂ = .ok (.int k) m₃ →
      evaluate rounds (depth + 2) (.node (.operation .xor [.node (.operation .xor [x, y]), z])) own m
        = .ok (.int a) m₃) ∧
    (∀ (operands others : List Value) (ns ks : List Int) (m m₁ m' m₁' : Machine), ns.Perm ks →
      evalOperands (evaluate rounds depth) operands m = .ok (ns.map Value.int) m₁ →
      evalOperands (evaluate rounds depth) others m' = .ok (ks.map Value.int) m₁' →
      ∃ n, evaluate rounds (depth + 1) (.node (.operation .xor operands)) own m = .ok (.int n) m₁ ∧
        evaluate rounds (depth + 1) (.node (.operation .xor others)) own m' = .ok (.int n) m₁') ∧
    (∀ (x y : Value) (a b : Int) (m m₁ : Machine),
      evalOperands (evaluate rounds depth) [x, y] m = .ok [.int a, .int b] m₁ →
      ∃ c d e, evaluate rounds (depth + 1) (.node (.operation .xor [x, y])) own m = .ok (.int c) m₁ ∧
        evaluate rounds (depth + 1) (.node (.operation .eqv [x, y])) own m = .ok (.int (-1 - c)) m₁ ∧
        evaluate rounds (depth + 1) (.node (.operation .and [x, y])) own m = .ok (.int d) m₁ ∧
        evaluate rounds (depth + 1) (.node (.operation .or [x, y])) own m = .ok (.int e) m₁ ∧
        d + e = a + b) ∧
    ∀ (n : Int) (m : Machine),
      (Decimal.isWritable n = true →
        evalOperand (evaluate rounds depth) (.int n) m = .ok (.int n) m) ∧
      (Decimal.isWritable n = false →
        evalOperand (evaluate rounds depth) (.int n) m = .error .wrongValue m) := by
  refine ⟨?_, fun operands others ns ks m m₁ m' m₁' ↦ evalOperation_xor_perm, ?_,
    fun n m ↦ evalOperand_constant⟩
  · intro x y z a k m m₁ m₂ m₃ hx hy hz
    have hinner : evalOperand (evaluate rounds (depth + 1)) (.node (.operation .xor [x, y])) m =
        .ok (.int (Int.xor a k)) m₂ :=
      evalOperand_pair .xor rfl rfl hx hy
    have houter := evaluate_pair .xor rfl rfl (evalOperands_pair hinner hz) own
    rw [Number.xor_xor_cancel] at houter
    exact houter
  · intro x y a b m m₁ h
    have heqv := evaluate_pair .eqv rfl rfl h own
    rw [Number.lnot_eq_sub] at heqv
    exact ⟨Int.xor a b, Int.land a b, Int.lor a b, evaluate_pair .xor rfl rfl h own, heqv,
      evaluate_pair .and rfl rfl h own, evaluate_pair .or rfl rfl h own, Number.land_add_lor a b⟩

/-- The largest power of ten that has a base-ten text. -/
def longestPower : Int :=
  (Nat.pow 10 (Decimal.digitLimit - 1) : Nat)

theorem isWritable_longestPower : Decimal.isWritable longestPower = true := by
  have hlimit (limit : Nat) (h : 0 < limit) : Nat.pow 10 (limit - 1) < Nat.pow 10 limit :=
    Nat.pow_lt_pow_right (by decide) (Nat.sub_lt h Nat.one_pos)
  rw [Decimal.isWritable, longestPower, Int.natAbs_natCast, decide_eq_true_eq]
  exact hlimit Decimal.digitLimit (by decide)

theorem not_isWritable_square : Decimal.isWritable (longestPower * longestPower) = false := by
  have hlimit (limit : Nat) (h : 2 ≤ limit) :
      Nat.pow 10 limit ≤ Nat.pow 10 (limit - 1) * Nat.pow 10 (limit - 1) := by
    have hsum : Nat.pow 10 (limit - 1 + (limit - 1)) =
        Nat.pow 10 (limit - 1) * Nat.pow 10 (limit - 1) := Nat.pow_add 10 _ _
    rw [← hsum]
    exact Nat.pow_le_pow_right (by decide) (by omega)
  rw [Decimal.isWritable, Int.natAbs_mul, longestPower, Int.natAbs_natCast, decide_eq_false_iff_not]
  exact Nat.not_lt.mpr (hlimit Decimal.digitLimit (by decide))

theorem isWritable_digit {n : Int} (hn : n.natAbs < Nat.pow 10 1) : Decimal.isWritable n = true :=
  Decimal.isWritable_of_lt (by decide : 1 ≤ Decimal.digitLimit) hn

theorem gives_digit {evaluate : Evaluator} {m : Machine} {n : Int} (hn : n.natAbs < Nat.pow 10 1) :
    Gives evaluate m (.int n) (.int n) :=
  gives_int (isWritable_digit hn)

/-- A negative key undoes itself, also on a product that is too long for a base-ten text, and it may
as well come first. -/
theorem bitwise_laws_long_product :
    Decimal.isWritable (longestPower * longestPower) = false ∧
    evaluate 1 3 (.node (.operation .xor [.node (.operation .xor
      [.node (.operation .multiply [.int longestPower, .int longestPower]), .int (-3)]),
      .int (-3)])) none {} = .ok (.int (longestPower * longestPower)) {} ∧
    (∃ n, evaluate 1 2 (.node (.operation .xor
      [.node (.operation .multiply [.int longestPower, .int longestPower]), .int (-3)])) none {} =
        .ok (.int n) {} ∧
      evaluate 1 2 (.node (.operation .xor
        [.int (-3), .node (.operation .multiply [.int longestPower, .int longestPower])])) none {} =
          .ok (.int n) {}) ∧
    ∃ c d e, evaluate 1 2 (.node (.operation .xor [.int (-3), .int 1])) none {} = .ok (.int c) {} ∧
      evaluate 1 2 (.node (.operation .eqv [.int (-3), .int 1])) none {} = .ok (.int (-1 - c)) {} ∧
      evaluate 1 2 (.node (.operation .and [.int (-3), .int 1])) none {} = .ok (.int d) {} ∧
      evaluate 1 2 (.node (.operation .or [.int (-3), .int 1])) none {} = .ok (.int e) {} ∧
      d + e = -3 + 1 := by
  have hproduct : evalOperand (evaluate 1 1)
      (.node (.operation .multiply [.int longestPower, .int longestPower])) {} =
        .ok (.int (longestPower * longestPower)) {} :=
    evalOperand_pair .multiply rfl rfl (gives_int isWritable_longestPower)
      (gives_int isWritable_longestPower)
  have hkey {evaluate : Evaluator} : Gives evaluate {} (.int (-3)) (.int (-3)) :=
    gives_digit (by decide)
  obtain ⟨hcancels, horder, hpair, -⟩ := bitwise_laws 1 1 none
  have hswap : [longestPower * longestPower, -3].Perm [-3, longestPower * longestPower] :=
    .swap _ _ _
  exact ⟨not_isWritable_square, hcancels _ _ _ _ _ _ _ _ _ hproduct hkey hkey,
    horder _ _ _ _ _ _ _ _ hswap (evalOperands_pair hproduct hkey)
      (evalOperands_pair hkey hproduct),
    hpair _ _ _ _ _ _ (evalOperands_pair hkey (gives_digit (by decide)))⟩

/-- A number that stands in the tree but has no base-ten text is not decoded. -/
theorem long_constant_refused : ¬ ∀ (a k : Int) (m : Machine), ∃ m',
    evaluate 1 2 (.node (.operation .xor [.node (.operation .xor [.int a, .int k]), .int k])) none m
      = .ok (.int a) m' := by
  have hxor {evaluate : Evaluator} {x : Value} {operands : List Value} {m m₁ : Machine}
      (hx : evalOperand evaluate x m = .error .wrongValue m₁) :
      evalOperation evaluate .xor (x :: operands) m = .error .wrongValue m₁ := by
    have hcombine : combine evaluate Value.bitXor (x :: operands) m = .error .wrongValue m₁ :=
      Eval.bind_of_error (Eval.bind_of_error hx _) _
    have hending : endingProgram (combine evaluate Value.bitXor (x :: operands)) m =
        .error .wrongValue m₁ := Eval.handle_of_error hcombine _ _
    exact Eval.handle_of_error hending _ _
  have hnode : (Node.operation .xor [.int (longestPower * longestPower), .int 1]).isWritable =
      false := by
    rw [Node.isWritable, allWritable, Value.isWritable, not_isWritable_square]
    rfl
  intro h
  obtain ⟨m', hvalue⟩ := h (longestPower * longestPower) 1 {}
  have hfails : evaluate 1 2 (.node (.operation .xor [.node (.operation .xor
      [.int (longestPower * longestPower), .int 1]), .int 1])) none {} = .error .wrongValue {} :=
    hxor (evalOperand_of_not_isWritable hnode)
  rw [hfails] at hvalue
  exact nomatch hvalue

end Semantics

end VbaTrace
