import Mathlib.Data.List.Forall2
import Mathlib.Data.Set.List
import VbaTrace.Proofs.ConstantExpressions
import VbaTrace.Proofs.EntryPoints
import VbaTrace.Proofs.Retries

/-!
Sums of numbers and texts. The first attempt of a sum adds values of one kind, and fails if both kinds
occur, wherever the second one comes (`fold_add_mixed`). The attempts after it read all values, first
as whole numbers and then as texts, and put together what was read (`fold_eq_mapM`). So a sum of
numbers and texts has a value in any case, and the kinds and the readings of its operands decide
which (`sum_of_numbers_and_texts`).
-/

set_option autoImplicit false

namespace VbaTrace

/-! Combining what is read from values -/

section

variable {α : Type} {operation : Value → Value → Except Fault Value} {read : Value → Except Fault α}
  {wrap : α → Value} {f : α → α → α}

theorem foldlM_eq_mapM
    (hoperation : ∀ v w, operation v w =
      read v >>= fun a ↦ read w >>= fun b ↦ pure (wrap (f a b)))
    (hread : ∀ a, read (wrap a) = .ok a) (a : α) (vs : List Value) :
    vs.foldlM operation (wrap a) = (vs.mapM read).map fun as ↦ wrap (as.foldl f a) := by
  induction vs generalizing a with
  | nil => rfl
  | cons w vs ih =>
    rw [List.foldlM_cons, hoperation, hread, List.mapM_cons]
    cases read w with
    | error => rfl
    | ok b =>
      change vs.foldlM operation (wrap (f a b)) = _
      rw [ih]
      cases vs.mapM read <;> rfl

/-- An operation that reads its two values makes of several values what all their readings make. -/
theorem fold_eq_mapM (read : Value → Except Fault α) (wrap : α → Value) (f : α → α → α) (unit : α)
    (hoperation : ∀ v w, operation v w =
      read v >>= fun a ↦ read w >>= fun b ↦ pure (wrap (f a b)))
    (hread : ∀ a, read (wrap a) = .ok a) (hunit : ∀ a, f unit a = a) {vs : List Value}
    (htwo : 2 ≤ vs.length) :
    Operator.fold operation vs = (vs.mapM read).map fun as ↦ wrap (as.foldl f unit) := by
  obtain ⟨v, vs, rfl⟩ := List.exists_cons_of_length_pos (Nat.lt_of_lt_of_le Nat.two_pos htwo)
  obtain ⟨w, vs, rfl⟩ := List.exists_cons_of_length_pos (Nat.le_of_succ_le_succ htwo)
  rw [Operator.fold, List.foldlM_cons, hoperation, List.mapM_cons, List.mapM_cons]
  cases read v with
  | error => rfl
  | ok a =>
    cases read w with
    | error => rfl
    | ok b =>
      change vs.foldlM operation (wrap (f a b)) = _
      rw [foldlM_eq_mapM hoperation hread]
      cases vs.mapM read with
      | error => rfl
      | ok as =>
        change _ = Except.ok (wrap (as.foldl f (f (f unit a) b)))
        rw [hunit]
        rfl

theorem mapM_of_forall₂ {vs : List Value} {as : List α}
    (h : List.Forall₂ (fun v a ↦ read v = .ok a) vs as) : vs.mapM read = .ok as := by
  induction h with
  | nil => rfl
  | cons hv _ ih =>
    rw [List.mapM_cons, hv, ih]
    rfl

end

namespace Semantics

/-! Values of two kinds -/

section

variable {v w : Value} {values : List Value}

theorem text_ne_int (s : String) (n : Int) : Value.text s ≠ .int n := by
  rintro ⟨⟩

theorem add_of_isText_ne (hv : isScalar v = true) (hw : isScalar w = true)
    (hkinds : w.isText ≠ v.isText) : Value.add v w = .error .wrongType := by
  cases v with
  | int =>
    cases w with
    | int => exact absurd rfl hkinds
    | text => rfl
    | _ => exact Bool.noConfusion hw
  | text =>
    cases w with
    | int => rfl
    | text => exact absurd rfl hkinds
    | _ => exact Bool.noConfusion hw
  | _ => exact Bool.noConfusion hv

theorem add_of_isText_eq (hv : isScalar v = true) (hw : isScalar w = true)
    (hkind : w.isText = v.isText) :
    ∃ r, Value.add v w = .ok r ∧ isScalar r = true ∧ r.isText = v.isText := by
  cases v with
  | int =>
    cases w with
    | int => exact ⟨_, rfl, rfl, rfl⟩
    | text => exact Bool.noConfusion hkind
    | _ => exact Bool.noConfusion hw
  | text =>
    cases w with
    | int => exact Bool.noConfusion hkind
    | text => exact ⟨_, rfl, rfl, rfl⟩
    | _ => exact Bool.noConfusion hw
  | _ => exact Bool.noConfusion hv

theorem foldlM_add_mixed (hv : isScalar v = true) (hvalues : ∀ w ∈ values, isScalar w = true)
    (hmixed : ∃ w ∈ values, w.isText ≠ v.isText) :
    values.foldlM Value.add v = .error .wrongType := by
  induction values generalizing v with
  | nil =>
    obtain ⟨w, hw, -⟩ := hmixed
    exact absurd hw List.not_mem_nil
  | cons u values ih =>
    obtain ⟨hu, hvalues⟩ := List.forall_mem_cons.mp hvalues
    rw [List.foldlM_cons]
    by_cases hkind : u.isText = v.isText
    · obtain ⟨r, hadd, hr, hsame⟩ := add_of_isText_eq hv hu hkind
      obtain ⟨w, hw, hne⟩ := hmixed
      have hrest : w ∈ values := (List.mem_cons.mp hw).resolve_left fun hwu ↦ hne (hwu ▸ hkind)
      rw [hadd]
      exact ih hr hvalues ⟨w, hrest, hsame.symm ▸ hne⟩
    · rw [add_of_isText_ne hv hu hkind]
      rfl

/-- Numbers and texts are not added, wherever the first of the second kind comes. -/
theorem fold_add_mixed (hvalues : ∀ v ∈ values, isScalar v = true) {n : Int} {s : String}
    (hn : .int n ∈ values) (hs : .text s ∈ values) :
    Operator.fold Value.add values = .error .wrongType := by
  cases values with
  | nil => exact absurd hn List.not_mem_nil
  | cons v values =>
    obtain ⟨hv, hrest⟩ := List.forall_mem_cons.mp hvalues
    refine foldlM_add_mixed hv hrest ?_
    cases v with
    | int =>
      have hrest := (List.mem_cons.mp hs).resolve_left (text_ne_int s _)
      exact ⟨_, hrest, fun hkind ↦ Bool.noConfusion hkind⟩
    | text =>
      have hrest := (List.mem_cons.mp hn).resolve_left (text_ne_int _ n).symm
      exact ⟨_, hrest, fun hkind ↦ Bool.noConfusion hkind⟩
    | _ => exact Bool.noConfusion hv

theorem kinds_of_scalars (hvalues : ∀ v ∈ values, isScalar v = true) :
    (∃ ns : List Int, ns.map Value.int = values) ∨ (∃ ts : List String, ts.map Value.text = values) ∨
      (∃ n, .int n ∈ values) ∧ ∃ s, .text s ∈ values := by
  by_cases hint : ∃ n, .int n ∈ values
  · by_cases htext : ∃ s, .text s ∈ values
    · exact .inr (.inr ⟨hint, htext⟩)
    · have hints : ∀ v ∈ values, v ∈ Set.range Value.int := by
        intro v hv
        cases v with
        | int n => exact ⟨n, rfl⟩
        | text s => exact absurd ⟨s, hv⟩ htext
        | _ => exact Bool.noConfusion (hvalues _ hv)
      exact .inl ((Set.range_list_map Value.int).superset hints)
  · have htexts : ∀ v ∈ values, v ∈ Set.range Value.text := by
      intro v hv
      cases v with
      | int n => exact absurd ⟨n, hv⟩ hint
      | text s => exact ⟨s, rfl⟩
      | _ => exact Bool.noConfusion (hvalues _ hv)
    exact .inr (.inl ((Set.range_list_map Value.text).superset htexts))

/-! Readings of numbers and texts -/

/-- Texts that are read as whole numbers, and numbers, are all read as whole numbers. -/
theorem exists_readings (hvalues : ∀ v ∈ values, isScalar v = true)
    (hread : ∀ s, .text s ∈ values → (Decimal.readInt? s).isSome = true) :
    ∃ ns, List.Forall₂ (fun v n ↦ v.toInt = .ok n) values ns := by
  induction values with
  | nil => exact ⟨[], .nil⟩
  | cons v values ih =>
    obtain ⟨hv, hrest⟩ := List.forall_mem_cons.mp hvalues
    obtain ⟨ns, hns⟩ := ih hrest fun s hs ↦ hread s (List.mem_cons_of_mem _ hs)
    cases v with
    | int n => exact ⟨n :: ns, .cons rfl hns⟩
    | text s =>
      obtain ⟨n, hn⟩ := Option.isSome_iff_exists.mp (hread s List.mem_cons_self)
      refine ⟨n :: ns, .cons ?_ hns⟩
      rw [Value.toInt, hn]
    | _ => exact Bool.noConfusion hv

theorem mapM_toInt_fails (hvalues : ∀ v ∈ values, isScalar v = true) {s : String}
    (hs : .text s ∈ values) (hread : Decimal.readInt? s = none) :
    values.mapM Value.toInt = .error .wrongValue := by
  induction values with
  | nil => exact absurd hs List.not_mem_nil
  | cons v values ih =>
    obtain ⟨hv, hrest⟩ := List.forall_mem_cons.mp hvalues
    rw [List.mapM_cons]
    cases v with
    | int n =>
      rw [ih hrest ((List.mem_cons.mp hs).resolve_left (text_ne_int s n))]
      rfl
    | text t =>
      rw [Value.toInt]
      cases ht : Decimal.readInt? t with
      | none => rfl
      | some n =>
        have hother : Value.text s ≠ .text t := by
          rintro ⟨⟩
          exact Option.some_ne_none n (ht.symm.trans hread)
        rw [ih hrest ((List.mem_cons.mp hs).resolve_left hother)]
        rfl
    | _ => exact Bool.noConfusion hv

theorem mapM_written (hwritable : ∀ v ∈ values, v.isWritable = true) :
    values.mapM Value.written = .ok (values.map Value.display) :=
  mapM_of_forall₂ (List.forall₂_map_right_iff.mpr
    (List.forall₂_same.mpr fun v hv ↦ if_pos (hwritable v hv)))

theorem fold_applyToInts (htwo : 2 ≤ values.length) :
    Operator.fold (Operator.applyToInts .add) values =
      (values.mapM Value.toInt).map fun ns ↦ .int (ns.foldl (· + ·) 0) :=
  fold_eq_mapM Value.toInt Value.int (· + ·) 0 (fun _ _ ↦ rfl) (fun _ ↦ rfl) Int.zero_add htwo

theorem fold_joinTexts (htwo : 2 ≤ values.length) :
    Operator.fold joinTexts values =
      (values.mapM Value.written).map fun ts ↦ .text (String.join ts) :=
  fold_eq_mapM Value.written Value.text (· ++ ·) "" (fun _ _ ↦ rfl) (fun _ ↦ rfl)
    (fun _ ↦ String.empty_append) htwo

theorem fold_add_ints {ns : List Int} (hns : ns ≠ []) :
    Operator.fold Value.add (ns.map Value.int) = .ok (.int (ns.foldl (· + ·) 0)) := by
  obtain ⟨n, ns, rfl⟩ := List.exists_cons_of_ne_nil hns
  rw [fold_map (fun _ _ ↦ rfl : ∀ a b, Value.add (.int a) (.int b) = .ok (.int (a + b))),
    List.foldl_cons, Int.zero_add]

theorem fold_add_join {ts : List String} (hts : ts ≠ []) :
    Operator.fold Value.add (ts.map Value.text) = .ok (.text (String.join ts)) := by
  obtain ⟨t, ts, rfl⟩ := List.exists_cons_of_ne_nil hts
  rw [fold_map (fun _ _ ↦ rfl : ∀ a b, Value.add (.text a) (.text b) = .ok (.text (a ++ b))),
    String.join, List.foldl_cons, String.empty_append]

end

/-! The attempts -/

section

variable {evaluate : Evaluator} {operands values : List Value} {m m₁ m₂ m₃ : Machine}

theorem length_of_evalOperands (h : evalOperands evaluate operands m = .ok values m₁) :
    values.length = operands.length := by
  induction operands generalizing m values with
  | nil =>
    cases h
    rfl
  | cons v operands ih =>
    obtain ⟨w, m₂, -, hrest⟩ := Eval.bind_eq_ok h
    obtain ⟨ws, m₃, hws, hcons⟩ := Eval.bind_eq_ok hrest
    cases hcons
    rw [List.length_cons, List.length_cons, ih hws]

theorem combine_of_scalars (h : evalOperands evaluate operands m = .ok values m₁)
    (hvalues : ∀ v ∈ values, isScalar v = true)
    (operation : Value → Value → Except Fault Value) :
    combine evaluate operation operands m = Eval.ofExcept (Operator.fold operation values) m₁ := by
  have hopened : values.map m₁.heap.opened = values :=
    (List.map_congr_left fun v hv ↦ opened_of_isScalar _ (hvalues v hv)).trans (List.map_id' values)
  rw [combine, Eval.bind_of_ok h]
  change Eval.ofExcept (Operator.fold operation (values.map m₁.heap.opened)) m₁ = _
  rw [hopened]

theorem combineResolved_of_scalars (h : evalOperands evaluate operands m = .ok values m₁)
    (hvalues : ∀ v ∈ values, isScalar v = true)
    (operation : Value → Value → Except Fault Value) :
    combineResolved evaluate operation operands m =
      Eval.ofExcept (Operator.fold operation values) m₁ := by
  have hresolved : values.map m₁.heap.resolve = values :=
    (List.map_congr_left fun v hv ↦ resolve_of_isScalar _ (hvalues v hv)).trans (List.map_id' values)
  rw [combineResolved, Eval.bind_of_ok h]
  change Eval.ofExcept (Operator.fold operation (values.map m₁.heap.resolve)) m₁ = _
  rw [hresolved]

/-- Every pass that a sum may make over its operands gives the same values. -/
def SumsAlike (evaluate : Evaluator) (operands values : List Value) (m : Machine) : Prop :=
  ∀ n < Operator.add.maxPasses, ∃ m',
    evalOperands evaluate operands ((pass evaluate operands)^[n] m) = .ok values m'

theorem SumsAlike.passes (h : SumsAlike evaluate operands values m) :
    ∃ m₁ m₂ m₃, evalOperands evaluate operands m = .ok values m₁ ∧
      evalOperands evaluate operands m₁ = .ok values m₂ ∧
      evalOperands evaluate operands m₂ = .ok values m₃ := by
  obtain ⟨m₁, h₁⟩ := h 0 (by decide)
  obtain ⟨m₂, h₂⟩ := h 1 (by decide)
  obtain ⟨m₃, h₃⟩ := h 2 (by decide)
  have hfirst : pass evaluate operands m = m₁ := Eval.final_of_ok h₁
  have hsecond : pass evaluate operands m₁ = m₂ := by
    rw [← hfirst]
    exact Eval.final_of_ok h₂
  refine ⟨m₁, m₂, m₃, h₁, ?_, ?_⟩
  · rw [← hfirst]
    exact h₂
  · rw [← hsecond, ← hfirst]
    exact h₃

namespace SumsAlike

variable (h : SumsAlike evaluate operands values m)
include h

theorem length_eq : values.length = operands.length := by
  obtain ⟨_, _, _, hfirst, -⟩ := h.passes
  exact length_of_evalOperands hfirst

/-- Values that can be added are added at the first attempt. -/
theorem of_added {v : Value} (hvalues : ∀ v ∈ values, isScalar v = true)
    (hfold : Operator.fold Value.add values = .ok v) :
    ∃ m', evalSum evaluate operands m = .ok v m' := by
  obtain ⟨m₁, _, _, hfirst, -⟩ := h.passes
  have hcombine : combine evaluate Value.add operands m = .ok v m₁ := by
    rw [combine_of_scalars hfirst hvalues, hfold]
    rfl
  exact ⟨m₁, Eval.handle_of_ok (Eval.handle_of_ok hcombine _ _) _ _⟩

/-- Values that cannot be added are read as whole numbers at the second attempt, or else as texts at
the third. -/
theorem of_not_added (htwo : 2 ≤ values.length) (hvalues : ∀ v ∈ values, isScalar v = true)
    (hfold : Operator.fold Value.add values = .error .wrongType) :
    (∀ ns, values.mapM Value.toInt = .ok ns →
      ∃ m', evalSum evaluate operands m = .ok (.int (ns.foldl (· + ·) 0)) m') ∧
    ∀ ts, values.mapM Value.toInt = .error .wrongValue → values.mapM Value.written = .ok ts →
      ∃ m', evalSum evaluate operands m = .ok (.text (String.join ts)) m' := by
  obtain ⟨m₁, m₂, m₃, h₁, h₂, h₃⟩ := h.passes
  have hadd : combine evaluate Value.add operands m = .error .wrongType m₁ := by
    rw [combine_of_scalars h₁ hvalues, hfold]
    rfl
  have hfirst : endingProgram (combine evaluate Value.add operands) m = .error .wrongType m₁ :=
    Eval.handle_of_error hadd _ _
  have hints := combine_of_scalars h₂ hvalues (Operator.applyToInts .add)
  have htexts := combineResolved_of_scalars h₃ hvalues joinTexts
  rw [fold_applyToInts htwo] at hints
  rw [fold_joinTexts htwo] at htexts
  unfold evalSum
  rw [Eval.handle_of_error hfirst]
  refine ⟨fun ns hns ↦ ?_, fun ts hns hts ↦ ?_⟩
  · rw [hns] at hints
    exact ⟨m₂, Eval.handle_of_ok hints _ _⟩
  · rw [hns] at hints
    rw [hts] at htexts
    exact ⟨m₃, (Eval.handle_of_error hints _ _).trans htexts⟩

theorem of_ints {ns : List Int} (hns : values = ns.map Value.int) (htwo : 2 ≤ values.length) :
    ∃ m', evalSum evaluate operands m = .ok (.int (ns.foldl (· + ·) 0)) m' := by
  subst hns
  have hne : ns ≠ [] := by
    rintro rfl
    exact absurd htwo (by decide)
  exact h.of_added (List.forall_mem_map.mpr fun _ _ ↦ rfl) (fold_add_ints hne)

theorem of_texts {ts : List String} (hts : values = ts.map Value.text) (htwo : 2 ≤ values.length) :
    ∃ m', evalSum evaluate operands m = .ok (.text (String.join ts)) m' := by
  subst hts
  have hne : ts ≠ [] := by
    rintro rfl
    exact absurd htwo (by decide)
  exact h.of_added (List.forall_mem_map.mpr fun _ _ ↦ rfl) (fold_add_join hne)

theorem of_read (htwo : 2 ≤ values.length) (hvalues : ∀ v ∈ values, isScalar v = true)
    (hint : ∃ n, .int n ∈ values) (htext : ∃ s, .text s ∈ values)
    (hread : ∀ s, .text s ∈ values → (Decimal.readInt? s).isSome = true) :
    ∃ ns, List.Forall₂ (fun v n ↦ v.toInt = .ok n) values ns ∧
      ∃ m', evalSum evaluate operands m = .ok (.int (ns.foldl (· + ·) 0)) m' := by
  obtain ⟨n, hn⟩ := hint
  obtain ⟨s, hs⟩ := htext
  obtain ⟨ns, hns⟩ := exists_readings hvalues hread
  exact ⟨ns, hns,
    (h.of_not_added htwo hvalues (fold_add_mixed hvalues hn hs)).1 ns (mapM_of_forall₂ hns)⟩

theorem of_unread (htwo : 2 ≤ values.length) (hvalues : ∀ v ∈ values, isWritableScalar v = true)
    (hint : ∃ n, .int n ∈ values) {s : String} (hs : .text s ∈ values)
    (hread : Decimal.readInt? s = none) :
    ∃ m', evalSum evaluate operands m =
      .ok (.text (String.join (values.map Value.display))) m' := by
  obtain ⟨n, hn⟩ := hint
  have hscalars (v : Value) (hv : v ∈ values) : isScalar v = true :=
    (isWritableScalar_iff.mp (hvalues v hv)).1
  have hwritten := mapM_written fun v hv ↦ (isWritableScalar_iff.mp (hvalues v hv)).2
  exact (h.of_not_added htwo hscalars (fold_add_mixed hscalars hn hs)).2 _
    (mapM_toInt_fails hscalars hs hread) hwritten

/-- One of the attempts gives a value. -/
theorem exists_value (htwo : 2 ≤ values.length)
    (hvalues : ∀ v ∈ values, isWritableScalar v = true) :
    ∃ v m', evalSum evaluate operands m = .ok v m' := by
  have hscalars (v : Value) (hv : v ∈ values) : isScalar v = true :=
    (isWritableScalar_iff.mp (hvalues v hv)).1
  rcases kinds_of_scalars hscalars with ⟨ns, hns⟩ | ⟨ts, hts⟩ | ⟨hint, htext⟩
  · exact ⟨_, h.of_ints hns.symm htwo⟩
  · exact ⟨_, h.of_texts hts.symm htwo⟩
  · by_cases hread : ∀ s, .text s ∈ values → (Decimal.readInt? s).isSome = true
    · obtain ⟨ns, -, hsum⟩ := h.of_read htwo hscalars hint htext hread
      exact ⟨_, hsum⟩
    · simp only [not_forall] at hread
      obtain ⟨s, hs, hread⟩ := hread
      exact ⟨_, h.of_unread htwo hvalues hint hs (Option.not_isSome_iff_eq_none.mp hread)⟩

end SumsAlike

end

/-- A sum of at least two operands that give the same numbers with a base-ten text and texts at each
pass gives a value. Numbers are added and texts are joined. If there are both, and all texts are read
as whole numbers, then what is read is added; if some text is not, then the texts of all values are
joined, in order. -/
theorem sum_of_numbers_and_texts (rounds depth : Nat) (own : Arguments)
    {operands values : List Value} {m : Machine} (htwo : 2 ≤ operands.length)
    (halike : SumsAlike (evaluate rounds depth) operands values m)
    (hvalues : ∀ v ∈ values, isWritableScalar v = true) :
    ∃ v m', evaluate rounds (depth + 1) (.node (.operation .add operands)) own m = .ok v m' ∧
      (∀ ns : List Int, values = ns.map Value.int → v = .int (ns.foldl (· + ·) 0)) ∧
      (∀ ts : List String, values = ts.map Value.text → v = .text (String.join ts)) ∧
      ((∃ n, .int n ∈ values) → (∃ s, .text s ∈ values) →
        ((∀ s, .text s ∈ values → (Decimal.readInt? s).isSome = true) →
          ∃ ns, List.Forall₂ (fun w n ↦ w.toInt = .ok n) values ns ∧ v = .int (ns.foldl (· + ·) 0)) ∧
        (∀ s, .text s ∈ values → Decimal.readInt? s = none →
          v = .text (String.join (values.map Value.display)))) := by
  have htwo : 2 ≤ values.length := halike.length_eq.symm ▸ htwo
  obtain ⟨v, m', hv⟩ := halike.exists_value htwo hvalues
  have hsame {r : Value}
      (hr : ∃ m', evalSum (evaluate rounds depth) operands m = .ok r m') : v = r := by
    obtain ⟨m₁, hr⟩ := hr
    rw [hv] at hr
    injection hr
  refine ⟨v, m', hv, fun ns hns ↦ hsame (halike.of_ints hns htwo),
    fun ts hts ↦ hsame (halike.of_texts hts htwo), fun hint htext ↦ ⟨fun hread ↦ ?_,
    fun s hs hread ↦ hsame (halike.of_unread htwo hvalues hint hs hread)⟩⟩
  obtain ⟨ns, hns, hsum⟩ := halike.of_read htwo
    (fun v hv ↦ (isWritableScalar_iff.mp (hvalues v hv)).1) hint htext hread
  exact ⟨ns, hns, hsame hsum⟩

theorem evalOperands_of_passes {evaluate : Evaluator} {operands values : List Value} {m : Machine}
    (h : List.Forall₂ (Gives evaluate m) operands values) (n : Nat) :
    evalOperands evaluate operands ((pass evaluate operands)^[n] m) = .ok values m := by
  have hoperands := evalOperands_of_gives h
  have hpass : pass evaluate operands m = m := Eval.final_of_ok hoperands
  rw [Function.iterate_fixed hpass]
  exact hoperands

theorem sumsAlike_of_gives {evaluate : Evaluator} {operands values : List Value} {m : Machine}
    (h : List.Forall₂ (Gives evaluate m) operands values) : SumsAlike evaluate operands values m :=
  fun n _ ↦ ⟨m, evalOperands_of_passes h n⟩

theorem sum_of_numbers_and_texts_late :
    ∃ m', evaluate 1 1 (.node (.operation .add [.text "5", .int 1, .text "x"])) none {} =
      .ok (.text "51x") m' := by
  have hoperands : List.Forall₂ (Gives (evaluate 1 0) {}) [.text "5", .int 1, .text "x"]
      [.text "5", .int 1, .text "x"] :=
    .cons (gives_undotted (by decide)) (.cons (gives_int isWritable_one)
      (.cons (gives_undotted (by decide)) .nil))
  obtain ⟨v, m', hv, -, -, hmixed⟩ := sum_of_numbers_and_texts 1 0 none (by decide)
    (sumsAlike_of_gives hoperands) (by simp [isWritableScalar, isWritable_one])
  have hunread : Decimal.readInt? "x" = none := by decide +kernel
  have hone : (Value.int 1).display = "1" := by decide +kernel
  have hjoined := (hmixed ⟨1, by simp⟩ ⟨"5", by simp⟩).2 "x" (by simp) hunread
  rw [hjoined, List.map_cons, List.map_cons, hone] at hv
  exact ⟨m', hv⟩

end Semantics

end VbaTrace
