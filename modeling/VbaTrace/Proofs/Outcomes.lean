import VbaTrace.Proofs.Effects

/-!
How an evaluation ends and what it leaves behind. `Eval.final` is the machine that it leaves, whether
it gives a value or fails, and `Eval.fails` tells whether it fails in a way that a handler catches.
A step that only looks at the machine leaves it alone, and a handler goes on in the machine that the
failed evaluation left (`final_bind_of_still`, `final_handle`).
-/

set_option autoImplicit false

namespace VbaTrace

namespace Eval

variable {α β : Type}

/-- The evaluation fails with a fault that is `caught`. -/
def fails (x : Eval α) (caught : Fault → Bool) (m : Machine) : Bool :=
  match x m with
  | .ok _ _ => false
  | .error f _ => caught f

theorem fails_of_ok {x : Eval α} {m m₁ : Machine} {a : α} (h : x m = .ok a m₁)
    (caught : Fault → Bool) : x.fails caught m = false := by
  rw [fails, h]

theorem fails_of_error {x : Eval α} {m m₁ : Machine} {f : Fault} (h : x m = .error f m₁)
    (caught : Fault → Bool) : x.fails caught m = caught f := by
  rw [fails, h]

theorem fails_iff {x : Eval α} {caught : Fault → Bool} {m : Machine} :
    x.fails caught m = true ↔ ∃ f m₁, x m = .error f m₁ ∧ caught f = true := by
  cases hx : x m with
  | ok a m₁ => simp [fails_of_ok hx]
  | error f m₁ => simp [fails_of_error hx]

theorem final_of_ok {x : Eval α} {m m₁ : Machine} {a : α} (h : x m = .ok a m₁) :
    x.final m = m₁ := by
  rw [final, h]

theorem final_of_error {x : Eval α} {m m₁ : Machine} {f : Fault} (h : x m = .error f m₁) :
    x.final m = m₁ := by
  rw [final, h]

theorem final_congr {x y : Eval α} {m m₁ : Machine} (h : x m = y m₁) :
    x.final m = y.final m₁ := by
  rw [final, final, h]

theorem fails_congr {x y : Eval α} {m m₁ : Machine} (h : x m = y m₁) (caught : Fault → Bool) :
    x.fails caught m = y.fails caught m₁ := by
  rw [fails, fails, h]

@[simp] theorem final_pure (a : α) (m : Machine) : (pure a : Eval α).final m = m :=
  rfl

/-- What only looks at the machine leaves what was there before. -/
theorem final_bind_of_still (x : Eval α) {f : α → Eval β} (hf : ∀ a m, (f a).final m = m)
    (m : Machine) : (x >>= f).final m = x.final m := by
  cases hx : x m with
  | ok a m₁ =>
    rw [final_of_ok hx, ← hf a m₁]
    unfold final
    rw [bind_of_ok hx]
  | error e m₁ =>
    rw [final_of_error hx]
    exact final_of_error (bind_of_error hx f)

/-- A handler goes on in the machine that the failed evaluation left. -/
theorem final_handle (x : Eval α) (caught : Fault → Bool) (handler : Eval α) (m : Machine) :
    (handle x caught fun _ ↦ handler).final m =
      if x.fails caught m then handler.final (x.final m) else x.final m := by
  cases hx : x m with
  | ok a m₁ =>
    rw [fails_of_ok hx, final_of_ok hx, final_of_ok (handle_of_ok hx caught fun _ ↦ handler)]
    rfl
  | error f m₁ =>
    rw [fails_of_error hx, final_of_error hx]
    unfold final
    rw [handle_of_error hx]
    by_cases hcaught : caught f = true
    · rw [if_pos hcaught, if_pos hcaught]
    · rw [if_neg hcaught, if_neg hcaught]

/-- To forget what an evaluation gives changes neither what it leaves nor how it fails. -/
theorem final_ignored (x : Eval α) (m : Machine) :
    (x >>= fun _ ↦ (pure () : Eval Unit)).final m = x.final m :=
  final_bind_of_still x (fun _ _ ↦ rfl) m

theorem fails_ignored (x : Eval α) (caught : Fault → Bool) (m : Machine) :
    (x >>= fun _ ↦ (pure () : Eval Unit)).fails caught m = x.fails caught m := by
  cases hx : x m with
  | ok a m₁ =>
    rw [fails_of_ok hx, fails, bind_of_ok hx]
    rfl
  | error f m₁ => rw [fails_of_error hx, fails_of_error (bind_of_error hx _)]

end Eval

theorem final_ensureWritable (v : Value) (m : Machine) : (ensureWritable v).final m = m := by
  unfold ensureWritable
  rw [Eval.final_bind_of_still]
  · rfl
  · intro w m₁
    split_ifs <;> rfl

theorem final_inNewFrame_frame {α : Type} (x : Eval α) (m : Machine) :
    ((inNewFrame x).final m).frame = m.frame := by
  cases hx : x { m with frame := {}, globals := m.globals.install } <;>
    simp only [inNewFrame, Eval.final, hx]

end VbaTrace
