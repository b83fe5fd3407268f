import VbaTrace.Proofs.IntegerOperations

/-!
Operators on texts of whole numbers. A value denotes a whole number if it is one or is a text that is
read as one (`Denotes`); the decimal text of a number is such a text (`denotes_writeInt`).

An operator that refuses texts gets through the numbers before the first text and then fails
(`Operator.fold_refuses_text`). It starts again with the numbers that are read from all values
(`Operator.fold_applyToInts_eq`), so that it does not matter which of them are texts
(`numerals_combined`).

Products, remainders and equivalences do not come so far. A text times a number is the text that
often, a text before the remainder sign is a template, and an equivalence gives up at the first text
(`numerals_paired`).
-/

set_option autoImplicit false

namespace VbaTrace

/-! Texts that are read as whole numbers -/

namespace Decimal

theorem mem_dropWhile {α : Type} {p : α → Bool} {a : α} {l : List α} (ha : a ∈ l)
    (hp : p a = false) : a ∈ l.dropWhile p := by
  have hsplit : l.takeWhile p ++ l.dropWhile p = l := List.takeWhile_append_dropWhile
  rw [← hsplit, List.mem_append] at ha
  refine ha.resolve_left fun hfront ↦ ?_
  rw [List.all_eq_true.mp List.all_takeWhile a hfront] at hp
  exact Bool.noConfusion hp

theorem digitRun_of_mem {c : Char} (hdigit : Text.digit? c = none) (hscore : c ≠ '_')
    {cs : List Char} (hc : c ∈ cs) : digitRun cs = none := by
  fun_induction digitRun cs with
  | case1 => rfl
  | case2 d =>
    obtain rfl := List.mem_singleton.mp hc
    rw [hdigit]
    rfl
  | case3 d cs ih =>
    rcases List.mem_cons.mp hc with rfl | hc
    · rw [hdigit]
      rfl
    · rw [ih ((List.mem_cons.mp hc).resolve_left hscore)]
      cases Text.digit? d <;> rfl
  | case4 d cs _ _ ih =>
    rcases List.mem_cons.mp hc with rfl | hc
    · rw [hdigit]
      rfl
    · rw [ih hc]
      cases Text.digit? d <;> rfl

theorem not_mem_of_readInt? {s : String} {n : Int} (h : readInt? s = some n) : '%' ∉ s.toList := by
  intro hmem
  have htrimmed : '%' ∈ trimSpace s.toList := by
    have hspace : isSpace '%' = false := by decide
    have hfront := mem_dropWhile hmem hspace
    exact List.mem_reverse.mpr (mem_dropWhile (List.mem_reverse.mpr hfront) hspace)
  have hrest : '%' ∈ (takeSign (trimSpace s.toList)).2 := by
    revert htrimmed
    generalize trimSpace s.toList = cs
    intro hcs
    unfold takeSign
    split <;> simp_all
  rw [readInt?] at h
  dsimp only at h
  rw [digitRun_of_mem (by decide) (by decide) hrest] at h
  exact Option.some_ne_none n h.symm

end Decimal

/-- The value is a whole number, or a text that is read as one. -/
inductive Denotes : Value → Int → Prop
  | int (n : Int) : Denotes (.int n) n
  | text {s : String} {n : Int} (h : Decimal.readInt? s = some n) : Denotes (.text s) n

namespace Denotes

variable {v : Value} {n : Int}

theorem isScalar (h : Denotes v n) : Semantics.isScalar v = true := by
  cases h <;> rfl

theorem toInt (h : Denotes v n) : v.toInt = .ok n := by
  cases h with
  | int => rfl
  | text hread => rw [Value.toInt, hread]

end Denotes

/-- The decimal text of a number denotes it. -/
theorem denotes_writeInt {n : Int} (hn : Decimal.isWritable n = true) :
    Denotes (.text (Decimal.writeInt n)) n :=
  .text (Decimal.readInt?_writeInt hn)

namespace Operator

/-- The operator has no result if one of its two values is a text. -/
def refusesTexts : Operator → Bool
  | subtract | divide | floorDivide | xor | and | or | eqv => true
  | multiply | modulo | add | concatenate => false

theorem apply_refuses_text {op : Operator} (hop : op.refusesTexts = true) {v w : Value} {a b : Int}
    (hv : Denotes v a) (hw : Denotes w b) (htext : v.isText = true ∨ w.isText = true) :
    op.apply v w = .error .wrongType := by
  cases hv with
  | int =>
    cases hw with
    | int => exact absurd htext (by simp [Value.isText])
    | text => cases op <;> first | exact Bool.noConfusion hop | rfl
  | text =>
    cases hw with
    | int => cases op <;> first | exact Bool.noConfusion hop | rfl
    | text => cases op <;> first | exact Bool.noConfusion hop | rfl

section

variable {op : Operator} {f : Int → Int → Int} (hf : op.onInts? = some f)
include hf

theorem apply_of_ne_zero (a : Int) {b : Int} (hb : op.refusesZero = true → b ≠ 0) :
    op.apply (.int a) (.int b) = .ok (.int (f a b)) := by
  rw [apply_ints hf, if_neg fun h ↦ hb h.1 h.2]

/-- The numbers before the first text are combined, and at the text the fold fails. -/
theorem foldlM_refuses_text (hop : op.refusesTexts = true) {values : List Value} {ns : List Int}
    (hvalues : List.Forall₂ Denotes values ns) (hzero : op.refusesZero = true → 0 ∉ ns)
    (htext : ∃ v ∈ values, v.isText = true) (a : Int) :
    values.foldlM op.apply (.int a) = .error .wrongType := by
  induction hvalues generalizing a with
  | nil =>
    obtain ⟨v, hv, -⟩ := htext
    exact absurd hv List.not_mem_nil
  | @cons v n values ns hv hvalues ih =>
    rw [List.foldlM_cons]
    cases hv with
    | int =>
      have hrest : ∃ v ∈ values, v.isText = true := by
        obtain ⟨w, hw, hwtext⟩ := htext
        refine ⟨w, (List.mem_cons.mp hw).resolve_left ?_, hwtext⟩
        rintro rfl
        exact Bool.noConfusion hwtext
      rw [apply_of_ne_zero hf a fun h ↦ (List.ne_of_not_mem_cons (hzero h)).symm]
      exact ih (fun h ↦ List.not_mem_of_not_mem_cons (hzero h)) hrest (f a n)
    | text hread =>
      rw [apply_refuses_text hop (.int a) (.text hread) (.inr rfl)]
      rfl

/-- Wherever a text is among the values, they are not combined. -/
theorem fold_refuses_text (hop : op.refusesTexts = true) {v w : Value} {values : List Value}
    {a : Int} {ns : List Int} (hv : Denotes v a)
    (hvalues : List.Forall₂ Denotes (w :: values) ns) (hzero : op.refusesZero = true → 0 ∉ ns)
    (htext : ∃ u ∈ v :: w :: values, u.isText = true) :
    fold op.apply (v :: w :: values) = .error .wrongType := by
  rw [fold]
  cases hv with
  | int =>
    obtain ⟨u, hu, hutext⟩ := htext
    refine foldlM_refuses_text hf hop hvalues hzero ⟨u, (List.mem_cons.mp hu).resolve_left ?_, hutext⟩ a
    rintro rfl
    exact Bool.noConfusion hutext
  | text hread =>
    cases hvalues with
    | cons hw _ =>
      rw [List.foldlM_cons, apply_refuses_text hop (.text hread) hw (.inl rfl)]
      rfl

theorem applyToInts_eq {v w : Value} {a b : Int} (hv : Denotes v a) (hw : Denotes w b)
    (hb : op.refusesZero = true → b ≠ 0) : op.applyToInts v w = .ok (.int (f a b)) := by
  rw [applyToInts, hv.toInt, hw.toInt]
  exact apply_of_ne_zero hf a hb

theorem foldlM_applyToInts {values : List Value} {ns : List Int}
    (hvalues : List.Forall₂ Denotes values ns) (hzero : op.refusesZero = true → 0 ∉ ns) (a : Int) :
    values.foldlM op.applyToInts (.int a) = .ok (.int (ns.foldl f a)) := by
  induction hvalues generalizing a with
  | nil => rfl
  | @cons v n values ns hv hvalues ih =>
    rw [List.foldlM_cons, applyToInts_eq hf (.int a) hv fun h ↦
      (List.ne_of_not_mem_cons (hzero h)).symm]
    exact ih (fun h ↦ List.not_mem_of_not_mem_cons (hzero h)) (f a n)

/-- The numbers that the values denote are combined, texts or not. -/
theorem fold_applyToInts_eq {v w : Value} {values : List Value} {a b : Int} {ns : List Int}
    (hv : Denotes v a) (hw : Denotes w b) (hvalues : List.Forall₂ Denotes values ns)
    (hzero : op.refusesZero = true → 0 ∉ b :: ns) :
    fold op.applyToInts (v :: w :: values) = .ok (.int ((b :: ns).foldl f a)) := by
  rw [fold, List.foldlM_cons, applyToInts_eq hf hv hw fun h ↦
    (List.ne_of_not_mem_cons (hzero h)).symm]
  exact foldlM_applyToInts hf hvalues (fun h ↦ List.not_mem_of_not_mem_cons (hzero h)) (f a b)

end

end Operator

namespace Semantics

section

variable {evaluate : Evaluator} {op : Operator} {operands values : List Value} {m m₁ m₂ : Machine}

/-- After a first attempt that fails, what the second one gives is the value of the node. -/
theorem evalOperation_of_retry (hop : op.retries .wrongType = true)
    (h₁ : evalOperands evaluate operands m = .ok values m₁)
    (h₂ : evalOperands evaluate operands m₁ = .ok values m₂)
    (hvalues : ∀ v ∈ values, isScalar v = true) {r : Value}
    (hfirst : Operator.fold op.apply values = .error .wrongType)
    (hsecond : Operator.fold op.applyToInts values = .ok r) :
    evalOperation evaluate op operands m = .ok r m₂ := by
  have hattempt : combine evaluate op.apply operands m = .error .wrongType m₁ := by
    rw [combine_of_scalars h₁ hvalues, hfirst]
    rfl
  have hretry : combine evaluate op.applyToInts operands m₁ = .ok r m₂ := by
    rw [combine_of_scalars h₂ hvalues, hsecond]
    rfl
  have hending : endingProgram (combine evaluate op.apply operands) m = .error .wrongType m₁ :=
    Eval.handle_of_error hattempt _ _
  cases op with
  | add | xor | and | or =>
    exact (Eval.handle_of_error hending _ _).trans (Eval.handle_of_ok hretry _ _)
  | subtract | multiply | floorDivide | divide =>
    exact (Eval.handle_of_error hattempt _ _).trans (Eval.handle_of_ok hretry _ _)
  | modulo | concatenate | eqv => exact Bool.noConfusion hop

end

end Semantics

/-! Values that are the same at each pass -/

namespace Operator

open Semantics

variable {op : Operator} {evaluate : Evaluator} {operands values : List Value} {m : Machine}

/-- Every pass that the operator makes over its operands gives the same values. -/
def Steady (op : Operator) (evaluate : Evaluator) (operands values : List Value) (m : Machine) :
    Prop :=
  ∀ i < op.passCount evaluate operands m, ∃ m',
    evalOperands evaluate operands ((pass evaluate operands)^[i] m) = .ok values m'

theorem passCount_pos (op : Operator) (evaluate : Evaluator) (operands : List Value) (m : Machine) :
    0 < op.passCount evaluate operands m := by
  unfold passCount
  split_ifs <;> decide

namespace Steady

theorem of_gives (h : List.Forall₂ (Semantics.Gives evaluate m) operands values) :
    op.Steady evaluate operands values m :=
  fun i _ ↦ ⟨m, evalOperands_of_passes h i⟩

variable (hsteady : op.Steady evaluate operands values m)
include hsteady

theorem first : ∃ m₁, evalOperands evaluate operands m = .ok values m₁ :=
  hsteady 0 (op.passCount_pos evaluate operands m)

/-- A first attempt that fails is followed by another one with the same values. -/
theorem value_of_retry (hop : op.retries .wrongType = true)
    (hvalues : ∀ v ∈ values, isScalar v = true) {r : Value}
    (hfirst : fold op.apply values = .error .wrongType)
    (hsecond : fold op.applyToInts values = .ok r) :
    ∃ m', evalOperation evaluate op operands m = .ok r m' := by
  obtain ⟨m₁, h₁⟩ := hsteady.first
  have hfails : (combine evaluate op.apply operands).fails op.retries m = true := by
    have hattempt : combine evaluate op.apply operands m = .error .wrongType m₁ := by
      rw [combine_of_scalars h₁ hvalues, hfirst]
      rfl
    rw [Eval.fails_of_error hattempt, hop]
  have htwice : 1 < op.passCount evaluate operands m := by
    rw [passCount, if_pos hfails]
    split_ifs <;> decide
  obtain ⟨m₂, h₂⟩ := hsteady 1 htwice
  have hpass : pass evaluate operands m = m₁ := Eval.final_of_ok h₁
  rw [Function.iterate_one, hpass] at h₂
  exact ⟨m₂, evalOperation_of_retry hop h₁ h₂ hvalues hfirst hsecond⟩

end Steady

end Operator

namespace Semantics

theorem scalars_of_denotes {values : List Value} {ns : List Int}
    (hvalues : List.Forall₂ Denotes values ns) : ∀ v ∈ values, isScalar v = true := by
  induction hvalues with
  | nil => exact fun v hv ↦ absurd hv List.not_mem_nil
  | cons hv _ ih => exact List.forall_mem_cons.mpr ⟨hv.isScalar, ih⟩

theorem ints_of_denotes {values : List Value} {ns : List Int}
    (hvalues : List.Forall₂ Denotes values ns) (hnone : ¬ ∃ v ∈ values, v.isText = true) :
    values = ns.map Value.int := by
  induction hvalues with
  | nil => rfl
  | @cons v n values ns hv _ ih =>
    cases hv with
    | int =>
      rw [List.map_cons, ih fun ⟨w, hw, htext⟩ ↦ hnone ⟨w, List.mem_cons_of_mem _ hw, htext⟩]
    | text => exact absurd ⟨_, List.mem_cons_self, rfl⟩ hnone

theorem convertsTexts_traits {op : Operator}
    (hop : op ∈ [Operator.subtract, .xor, .and, .or, .floorDivide]) :
    op.refusesTexts = true ∧ op.retries .wrongType = true ∧
      (op.refusesZero = true → op = .floorDivide) := by
  revert op
  decide

/-- At least two operands that give, at each pass, the same whole numbers and texts of whole numbers
are combined as the numbers are: for differences, whole quotients without a zero as divisor and the
bitwise operations, it does not matter which of the values are texts. -/
theorem numerals_combined (rounds depth : Nat) (own : Arguments) {op : Operator}
    (hop : op ∈ [.subtract, .xor, .and, .or, .floorDivide]) {f : Int → Int → Int}
    (hf : op.onInts? = some f) {operands values : List Value} {a b : Int} {ns : List Int}
    (hvalues : List.Forall₂ Denotes values (a :: b :: ns)) {m : Machine}
    (hsteady : op.Steady (evaluate rounds depth) operands values m)
    (hzero : op = .floorDivide → 0 ∉ b :: ns) :
    ∃ m', evaluate rounds (depth + 1) (.node (.operation op operands)) own m =
      .ok (.int ((b :: ns).foldl f a)) m' := by
  obtain ⟨htexts, hretries, hdivides⟩ := convertsTexts_traits hop
  by_cases htext : ∃ v ∈ values, v.isText = true
  · have hscalars := scalars_of_denotes hvalues
    cases hvalues with
    | cons hv hrest =>
      cases hrest with
      | cons hw hmore =>
        exact hsteady.value_of_retry hretries hscalars
          (Operator.fold_refuses_text hf htexts hv (.cons hw hmore) (fun h ↦ hzero (hdivides h)) htext)
          (Operator.fold_applyToInts_eq hf hv hw hmore fun h ↦ hzero (hdivides h))
  · obtain ⟨m₁, h₁⟩ := hsteady.first
    rw [ints_of_denotes hvalues htext] at h₁
    exact ⟨m₁, evalOperation_ints hf h₁ fun h ↦ hzero (hdivides h)⟩

theorem numerals_combined_late :
    ∃ m', evaluate 1 1 (.node (.operation .floorDivide
      [.int (-7), .int 2, .text (Decimal.writeInt (-3))])) none {} = .ok (.int 1) m' := by
  have hthree : Gives (evaluate 1 0) {} (.text (Decimal.writeInt (-3))) _ :=
    gives_undotted (by decide +kernel)
  have hgives := List.Forall₂.cons (gives_digit (n := -7) (by decide))
    (.cons (gives_digit (n := 2) (by decide)) (.cons hthree .nil))
  have hdenote : List.Forall₂ Denotes [.int (-7), .int 2, .text (Decimal.writeInt (-3))] [-7, 2, -3] :=
    .cons (.int _) (.cons (.int _) (.cons (denotes_writeInt (isWritable_digit (by decide))) .nil))
  have hop : Operator.floorDivide ∈ [Operator.subtract, .xor, .and, .or, .floorDivide] := by decide
  exact numerals_combined 1 0 none hop rfl hdenote (.of_gives hgives) fun _ ↦ by decide

/-! Products, remainders and equivalences -/

theorem fold_pair (operation : Value → Value → Except Fault Value) (v w : Value) :
    Operator.fold operation [v, w] = operation v w := by
  rw [Operator.fold, List.foldlM_cons]
  cases operation v w <;> rfl

end Semantics

/-- A template without a place is kept, and its value is not used. -/
theorem fillFrom_of_not_mem (v : Value) (fuel : Nat) (used : Bool) {cs : List Char}
    (h : '%' ∉ cs) : ∃ out, fillFrom v fuel used cs = .ok (out, used) := by
  fun_induction fillFrom v fuel used cs with
  | case1 => exact ⟨[], rfl⟩
  | case2 => exact ⟨[], rfl⟩
  | case3 => exact absurd List.mem_cons_self h
  | case4 => exact absurd List.mem_cons_self h
  | case5 fuel used c cs _ _ ih =>
    obtain ⟨out, hout⟩ := ih (List.not_mem_of_not_mem_cons h)
    rw [hout]
    exact ⟨c :: out, rfl⟩

theorem fillTemplate_of_not_mem {s : String} (hs : '%' ∉ s.toList) {v : Value} {n : Int}
    (hv : Denotes v n) : fillTemplate s v = .error .wrongType := by
  obtain ⟨out, hout⟩ := fillFrom_of_not_mem v (s.length + 1) false hs
  unfold fillTemplate
  rw [hout]
  cases hv <;> rfl

namespace Value

theorem modulo_refuses_text {v w : Value} {a b : Int} (hv : Denotes v a) (hw : Denotes w b)
    (htext : v.isText = true ∨ w.isText = true) : modulo v w = .error .wrongType := by
  cases hv with
  | int =>
    cases hw with
    | int => exact absurd htext (by simp [isText])
    | text => rfl
  | text hread =>
    rw [modulo, fillTemplate_of_not_mem (Decimal.not_mem_of_readInt? hread) hw]
    rfl

/-- A repeated text is a text, or too long. -/
theorem repeatText_cases (n : Int) (s : String) :
    (∃ t, repeatText n s = .ok (.text t)) ∨
      ∃ f : Fault, repeatText n s = .error f ∧ f.isWrongType = false := by
  unfold repeatText repeated
  split_ifs
  · exact .inr ⟨.overflow, rfl, rfl⟩
  · exact .inr ⟨.overflow, rfl, rfl⟩
  · exact .inl ⟨_, rfl⟩
  · exact .inl ⟨_, rfl⟩

end Value

namespace Semantics

section

variable {evaluate : Evaluator} {operands : List Value} {v w : Value} {a b : Int} {m m₁ : Machine}

theorem product_of_texts (hv : Denotes v a) (hw : Denotes w b) (hvtext : v.isText = true)
    (hwtext : w.isText = true)
    (hsteady : Operator.multiply.Steady evaluate operands [v, w] m) :
    ∃ m', evalOperation evaluate .multiply operands m = .ok (.int (a * b)) m' := by
  have hdenote : List.Forall₂ Denotes [v, w] [a, b] := .cons hv (.cons hw .nil)
  have hfirst : Operator.fold Operator.multiply.apply [v, w] = .error .wrongType := by
    rw [fold_pair]
    cases hv with
    | int => exact Bool.noConfusion hvtext
    | text =>
      cases hw with
      | int => exact Bool.noConfusion hwtext
      | text => rfl
  exact hsteady.value_of_retry rfl (scalars_of_denotes hdenote) hfirst
    (Operator.fold_applyToInts_eq rfl hv hw .nil Bool.noConfusion)

/-- A text times a number is not their product but the text that often. -/
theorem product_repeats_text {s : String} {n : Int}
    (hvalues : v = .text s ∧ w = .int n ∨ v = .int n ∧ w = .text s)
    (h : evalOperands evaluate operands m = .ok [v, w] m₁) :
    evalOperation evaluate .multiply operands m = Eval.ofExcept (Value.repeatText n s) m₁ := by
  have hscalars : ∀ u ∈ [v, w], isScalar u = true := by
    rcases hvalues with ⟨rfl, rfl⟩ | ⟨rfl, rfl⟩ <;> exact List.all_eq_true.mp rfl
  have hfold : Operator.fold Operator.multiply.apply [v, w] = Value.repeatText n s := by
    rw [fold_pair]
    rcases hvalues with ⟨rfl, rfl⟩ | ⟨rfl, rfl⟩ <;> rfl
  rcases Value.repeatText_cases n s with ⟨t, hresult⟩ | ⟨f, hresult, hf⟩
  · rw [evalOperation_of_fold_ok Operator.noConfusion h hscalars (hfold.trans hresult), hresult]
    rfl
  · rw [evalOperation_of_fold_error Operator.noConfusion h hscalars (hfold.trans hresult) hf, hresult]
    rfl

theorem product_iff (hv : Denotes v a) (hw : Denotes w b)
    (htext : v.isText = true ∨ w.isText = true)
    (hsteady : Operator.multiply.Steady evaluate operands [v, w] m) :
    (∃ m', evalOperation evaluate .multiply operands m = .ok (.int (a * b)) m') ↔
      v.isText = true ∧ w.isText = true := by
  refine ⟨fun ⟨m', hproduct⟩ ↦ ?_, fun ⟨hvtext, hwtext⟩ ↦ product_of_texts hv hw hvtext hwtext hsteady⟩
  by_contra hboth
  obtain ⟨s, n, hvalues⟩ : ∃ s n, v = .text s ∧ w = .int n ∨ v = .int n ∧ w = .text s := by
    cases hv with
    | int =>
      cases hw with
      | int => exact absurd htext (by simp [Value.isText])
      | text => exact ⟨_, _, .inr ⟨rfl, rfl⟩⟩
    | text =>
      cases hw with
      | int => exact ⟨_, _, .inl ⟨rfl, rfl⟩⟩
      | text => exact absurd ⟨rfl, rfl⟩ hboth
  obtain ⟨m₁, h₁⟩ := hsteady.first
  rw [product_repeats_text hvalues h₁] at hproduct
  rcases Value.repeatText_cases n s with ⟨t, hresult⟩ | ⟨f, hresult, -⟩
  · rw [hresult] at hproduct
    injection hproduct with hvalue
    exact text_ne_int t _ hvalue
  · rw [hresult] at hproduct
    exact nomatch hproduct

theorem remainder_refuses_text (hv : Denotes v a) (hw : Denotes w b)
    (htext : v.isText = true ∨ w.isText = true)
    (h : evalOperands evaluate operands m = .ok [v, w] m₁) :
    evalOperation evaluate .modulo operands m = .error .wrongType m₁ := by
  have hdenote : List.Forall₂ Denotes [v, w] [a, b] := .cons hv (.cons hw .nil)
  refine evalOperation_of_fold_error Operator.noConfusion h (scalars_of_denotes hdenote) ?_ rfl
  rw [fold_pair]
  exact Value.modulo_refuses_text hv hw htext

theorem equivalence_of_text (hv : Denotes v a) (hw : Denotes w b)
    (htext : v.isText = true ∨ w.isText = true)
    (h : evalOperands evaluate operands m = .ok [v, w] m₁) :
    evalOperation evaluate .eqv operands m = .ok (.int 0) m₁ := by
  have hdenote : List.Forall₂ Denotes [v, w] [a, b] := .cons hv (.cons hw .nil)
  have hcombine : combine evaluate Value.bitEqv operands m = .error .wrongType m₁ := by
    have hrefuses : Operator.eqv.apply v w = .error .wrongType :=
      Operator.apply_refuses_text rfl hv hw htext
    rw [combine_of_scalars h (scalars_of_denotes hdenote), fold_pair]
    exact congrArg (Eval.ofExcept · m₁) hrefuses
  have hending : endingProgram (combine evaluate Value.bitEqv operands) m = .error .wrongType m₁ :=
    Eval.handle_of_error hcombine _ _
  exact Eval.handle_of_error hending _ _

theorem equivalence_iff (hv : Denotes v a) (hw : Denotes w b)
    (htext : v.isText = true ∨ w.isText = true)
    (h : evalOperands evaluate operands m = .ok [v, w] m₁) :
    (∃ m', evalOperation evaluate .eqv operands m = .ok (.int (Int.lnot (Int.xor a b))) m') ↔
      b = -1 - a := by
  rw [equivalence_of_text hv hw htext h, ← Number.lnot_xor_eq_zero_iff]
  constructor
  · rintro ⟨m', hsame⟩
    injection hsame with hzero
    injection hzero with hzero
    exact hzero.symm
  · intro hzero
    exact ⟨m₁, by rw [hzero]⟩

end

/-- Two values that denote whole numbers, and of which one is a text, are multiplied only if both are
texts. A single text is repeated, as often as the number says. There is no remainder, and the
equivalence is zero, which is right only for numbers that are each other's complement. -/
theorem numerals_paired (rounds depth : Nat) (own : Arguments) {op : Operator}
    (hop : op ∈ [.multiply, .modulo, .eqv]) {f : Int → Int → Int} (hf : op.onInts? = some f)
    {operands : List Value} {v w : Value} {a b : Int} (hv : Denotes v a) (hw : Denotes w b)
    (htext : v.isText = true ∨ w.isText = true) {m : Machine}
    (hsteady : op.Steady (evaluate rounds depth) operands [v, w] m) :
    ((∃ m', evaluate rounds (depth + 1) (.node (.operation op operands)) own m =
        .ok (.int (f a b)) m') ↔
      op = .multiply ∧ v.isText = true ∧ w.isText = true ∨ op = .eqv ∧ b = -1 - a) ∧
    ∃ m',
      (op = .multiply → ∀ s n, v = .text s ∧ w = .int n ∨ v = .int n ∧ w = .text s →
        evaluate rounds (depth + 1) (.node (.operation op operands)) own m =
          Eval.ofExcept (Value.repeatText n s) m') ∧
      (op = .modulo →
        evaluate rounds (depth + 1) (.node (.operation op operands)) own m = .error .wrongType m') ∧
      (op = .eqv →
        evaluate rounds (depth + 1) (.node (.operation op operands)) own m = .ok (.int 0) m') := by
  obtain ⟨m₁, h₁⟩ := hsteady.first
  refine ⟨?_, m₁, ?_, ?_, ?_⟩
  · simp only [List.mem_cons, List.not_mem_nil, or_false] at hop
    rcases hop with rfl | rfl | rfl
    · cases hf
      exact (product_iff hv hw htext hsteady).trans (by simp)
    · have hfails := remainder_refuses_text hv hw htext h₁
      exact iff_of_false (fun ⟨m', hvalue⟩ ↦ nomatch hfails.symm.trans hvalue) (by simp)
    · cases hf
      exact (equivalence_iff hv hw htext h₁).trans (by simp)
  · rintro rfl s n hvalues
    exact product_repeats_text hvalues h₁
  · rintro rfl
    exact remainder_refuses_text hv hw htext h₁
  · rintro rfl
    exact equivalence_of_text hv hw htext h₁

theorem numerals_paired_texts :
    ∃ m', evaluate 1 1 (.node (.operation .multiply
      [.text (Decimal.writeInt (-3)), .text (Decimal.writeInt 4)])) none {} = .ok (.int (-12)) m' := by
  have hgives (n : Int) (hn : '.' ∉ (Decimal.writeInt n).toList) :
      Gives (evaluate 1 0) {} (.text (Decimal.writeInt n)) _ := gives_undotted hn
  have hop : Operator.multiply ∈ [Operator.multiply, .modulo, .eqv] := by decide
  exact (numerals_paired 1 0 none hop rfl (denotes_writeInt (isWritable_digit (by decide)))
    (denotes_writeInt (isWritable_digit (by decide))) (.inl rfl) (.of_gives
      (.cons (hgives (-3) (by decide +kernel)) (.cons (hgives 4 (by decide +kernel)) .nil)))).1.mpr
    (.inl ⟨rfl, rfl, rfl⟩)

/-- Three times two, the remainder of seven by two and the equivalence of both are not found if the
first number is given as a text. -/
theorem digit_texts_not_combined :
    (¬ ∃ m', evaluate 1 1 (.node (.operation .multiply [.text "3", .int 2])) none {} =
      .ok (.int 6) m') ∧
    (¬ ∃ m', evaluate 1 1 (.node (.operation .modulo [.text "7", .int 2])) none {} =
      .ok (.int 1) m') ∧
    ¬ ∃ m', evaluate 1 1 (.node (.operation .eqv [.text "7", .int 2])) none {} =
      .ok (.int (-6)) m' := by
  have hgives (s : String) (hs : '.' ∉ s.toList) :
      List.Forall₂ (Gives (evaluate 1 0) {}) [.text s, .int 2] [.text s, .int 2] :=
    .cons (gives_undotted hs) (.cons (gives_digit (by decide)) .nil)
  have hthree : Denotes (.text "3") 3 := .text (by decide +kernel)
  have hseven : Denotes (.text "7") 7 := .text (by decide +kernel)
  have hoperands := evalOperands_of_gives (hgives "7" (by decide))
  refine ⟨?_, ?_, ?_⟩
  · exact fun hproduct ↦ Bool.noConfusion
      ((product_iff hthree (.int 2) (.inl rfl) (.of_gives (hgives "3" (by decide)))).mp hproduct).2
  · rintro ⟨m', hvalue⟩
    exact nomatch (remainder_refuses_text hseven (.int 2) (.inl rfl) hoperands).symm.trans hvalue
  · exact fun hvalue ↦ absurd
      ((equivalence_iff hseven (.int 2) (.inl rfl) hoperands).mp hvalue) (by decide)

end Semantics

end VbaTrace
