import VbaTrace.Proofs.Changes

/-!
A logic for evaluations. `Ensures strict role x Q` says that `x`, started in a machine whose
variables hold operands, makes only the changes that its role allows, also when it fails, and that a
value which it gives satisfies `Q`. There is one rule for each way in which evaluations are put
together, and one for each operation on the machine.
-/

set_option autoImplicit false

namespace VbaTrace

namespace Eval

variable {α β : Type} {x : Eval α} {m m₁ : Machine}

theorem bind_of_ok {a : α} (h : x m = .ok a m₁) (f : α → Eval β) : (x >>= f) m = f a m₁ := by
  change EStateM.bind x f m = f a m₁
  rw [EStateM.bind, h]

theorem bind_of_error {e : Fault} (h : x m = .error e m₁) (f : α → Eval β) :
    (x >>= f) m = .error e m₁ := by
  change EStateM.bind x f m = .error e m₁
  rw [EStateM.bind, h]

theorem handle_of_ok {a : α} (h : x m = .ok a m₁) (caught : Fault → Bool)
    (handler : Fault → Eval α) : handle x caught handler m = .ok a m₁ := by
  change EStateM.tryCatch x _ m = .ok a m₁
  rw [EStateM.tryCatch, h]

theorem handle_of_error {f : Fault} (h : x m = .error f m₁) (caught : Fault → Bool)
    (handler : Fault → Eval α) :
    handle x caught handler m = if caught f then handler f m₁ else .error f m₁ := by
  change EStateM.tryCatch x _ m = _
  rw [EStateM.tryCatch, h]
  dsimp only
  split_ifs <;> rfl

/-- The machine that an evaluation leaves, whether it gives a value or fails. -/
def final (x : Eval α) (m : Machine) : Machine :=
  match x m with
  | .ok _ m' => m'
  | .error _ m' => m'

end Eval

/-! What the logics of evaluations have in common -/

/-- The shared lists and the properties of the document hold values of a kind only. -/
structure Machine.Stocked (P : Value → Prop) (m : Machine) : Prop where
  heap : m.heap.Stocked P
  properties : ∀ t, m.properties = some t → ∀ key v, t.find? key = some v → P v
  itemProperties : ∀ t, m.itemProperties = some t → ∀ key v, t.find? key = some v → P v

structure Machine.SameStock (m m' : Machine) : Prop where
  heap : m'.heap = m.heap
  properties : m'.properties = m.properties
  itemProperties : m'.itemProperties = m.itemProperties

/-- The rules of a logic of evaluations, for machines that are stocked with values of the kind `P`.
What follows from these rules holds in every logic that has them. -/
structure EvalLogic (P : Value → Prop) where
  Holds {α : Type} : Eval α → (α → Prop) → Prop
  pure {α : Type} {Q : α → Prop} {a : α} : Q a → Holds (Pure.pure a) Q
  throw {α : Type} {Q : α → Prop} (f : Fault) : Holds (MonadExcept.throw f) Q
  bind {α β : Type} {x : Eval α} {f : α → Eval β} {Q : α → Prop} {R : β → Prop} :
    Holds x Q → (∀ a, Q a → Holds (f a) R) → Holds (x >>= f) R
  handle {α : Type} {x : Eval α} {caught : Fault → Bool} {handler : Fault → Eval α}
    {Q : α → Prop} :
    Holds x Q → (∀ f, Holds (handler f) Q) → Holds (Eval.handle x caught handler) Q
  get {α : Type} {f : Machine → Eval α} {Q : α → Prop} :
    (∀ m, m.Stocked P → Holds (f m) Q) → (∀ m m', m.SameStock m' → f m' = f m) →
      Holds (MonadState.get >>= f) Q
  record {a : Action} : a.isEntry = false →
    Holds (modify fun m ↦ { m with actions := m.actions.push a }) fun _ ↦ True

namespace EvalLogic

variable {P : Value → Prop} (l : EvalLogic P) {α : Type} {Q : α → Prop}

theorem ofExcept {r : Except Fault α} (h : ∀ a, r = .ok a → Q a) :
    l.Holds (Eval.ofExcept r) Q := by
  cases r with
  | ok a => exact l.pure (h a rfl)
  | error f => exact l.throw f

/-- What stands behind a failure is not reached. -/
theorem throw_bind {β : Type} (f : Fault) (g : β → Eval α) :
    l.Holds (MonadExcept.throw f >>= g) Q :=
  l.bind (l.throw (Q := fun _ ↦ False) f) fun _ h ↦ h.elim

theorem opened [ValueKind P] {v : Value} (hv : P v) : l.Holds (opened v) P :=
  l.get (fun _ hm ↦ l.pure (hm.heap.opened hv)) fun _ _ h ↦ by simp only [h.heap]

/-- Reading what a list holds changes nothing, whatever the list is. -/
theorem read_resolved (v : Value) : l.Holds (resolved v) fun _ ↦ True :=
  l.get (fun _ _ ↦ l.pure True.intro) fun _ _ h ↦ by simp only [h.heap]

theorem read_opened (v : Value) : l.Holds (VbaTrace.opened v) fun _ ↦ True :=
  l.get (fun _ _ ↦ l.pure True.intro) fun _ _ h ↦ by simp only [h.heap]

theorem displayed (v : Value) : l.Holds (displayed v) fun _ ↦ True := by
  unfold VbaTrace.displayed
  exact l.bind (l.read_resolved v) fun _ _ ↦ l.ofExcept fun _ _ ↦ True.intro

theorem ensureWritable (v : Value) : l.Holds (ensureWritable v) fun _ ↦ True := by
  unfold VbaTrace.ensureWritable
  refine l.bind (l.read_resolved v) fun _ _ ↦ ?_
  split_ifs
  · exact l.pure True.intro
  · exact l.throw _

theorem report {what : Value} (hwhat : what.isEntryHeading = false) (params description : Value) :
    l.Holds (report what params description) fun _ ↦ True := by
  unfold VbaTrace.report
  refine l.bind (l.record (a := ⟨what, params, description⟩) hwhat) fun _ _ ↦ ?_
  refine l.bind (l.ensureWritable what) fun _ _ ↦ ?_
  exact l.bind (l.ensureWritable params) fun _ _ ↦ l.ensureWritable description

end EvalLogic

/-- The outcome of an evaluation that was started in a machine and respects its role. -/
def Meets (strict : Prop) (role : Role) (m : Machine) {α : Type} (Q : α → Prop) :
    EStateM.Result Fault Machine α → Prop
  | .ok a m' => Changes strict role m m' ∧ Q a
  | .error _ m' => Changes strict role m m'

theorem Meets.of_changes {strict : Prop} {role : Role} {m m₁ : Machine} {α : Type} {Q : α → Prop}
    {r : EStateM.Result Fault Machine α} (h₁ : Changes strict role m m₁)
    (h₂ : Meets strict role m₁ Q r) : Meets strict role m Q r := by
  cases r with
  | ok a m₂ => exact ⟨h₁.trans h₂.1, h₂.2⟩
  | error f m₂ => exact h₁.trans h₂

def Ensures (strict : Prop) (role : Role) {α : Type} (x : Eval α) (Q : α → Prop) : Prop :=
  ∀ m : Machine, m.Admitted strict → Meets strict role m Q (x m)

theorem Meets.bind {strict : Prop} {role : Role} {m : Machine} {α β : Type} {x : Eval α}
    {f : α → Eval β} {Q : α → Prop} {R : β → Prop} (hx : Meets strict role m Q (x m))
    (hm : m.Admitted strict) (hf : ∀ a, Q a → Ensures strict role (f a) R) :
    Meets strict role m R ((x >>= f) m) := by
  cases hxm : x m with
  | ok a m₁ =>
    rw [hxm] at hx
    rw [Eval.bind_of_ok hxm]
    exact .of_changes hx.1 (hf a hx.2 m₁ (hx.1.admitted hm))
  | error e m₁ =>
    rw [hxm] at hx
    rw [Eval.bind_of_error hxm]
    exact hx

namespace Ensures

variable {strict : Prop} {role : Role} {α β : Type} {x : Eval α} {Q : α → Prop}

theorem pure {a : α} (h : Q a) : Ensures strict role (Pure.pure a) Q :=
  fun m _ ↦ ⟨.refl role m, h⟩

theorem throw (f : Fault) : Ensures strict role (MonadExcept.throw f) Q :=
  fun m _ ↦ .refl role m

theorem of_role {other : Role} (hx : Ensures strict role x Q)
    (hassigns : strict → role.assigns = true → other.assigns = true)
    (hcontrols : strict → role = .statement → other = .statement) : Ensures strict other x Q := by
  intro m hm
  have h := hx m hm
  cases hxm : x m with
  | ok a m' =>
    rw [hxm] at h
    exact ⟨h.1.of_role hassigns hcontrols, h.2⟩
  | error f m' =>
    rw [hxm] at h
    exact Changes.of_role h hassigns hcontrols

theorem of_operand (hx : Ensures strict .operand x Q) : Ensures strict role x Q :=
  hx.of_role (fun _ heq ↦ nomatch heq) fun _ heq ↦ nomatch heq

theorem of_assignment (hx : Ensures strict .assignment x Q) (hrole : strict → role.assigns = true) :
    Ensures strict role x Q :=
  hx.of_role (fun hs _ ↦ hrole hs) fun _ heq ↦ nomatch heq

theorem changes_final (hx : Ensures strict role x Q) {m : Machine} (hm : m.Admitted strict) :
    Changes strict role m (x.final m) := by
  have h := hx m hm
  unfold Eval.final
  cases hxm : x m with
  | ok a m' =>
    rw [hxm] at h
    exact h.1
  | error f m' =>
    rw [hxm] at h
    exact h

theorem of_statement (hx : Ensures strict .statement x Q) (hrole : strict → role = .statement) :
    Ensures strict role x Q :=
  hx.of_role (fun hs _ ↦ hrole hs ▸ rfl) fun hs _ ↦ hrole hs

theorem bind {f : α → Eval β} {R : β → Prop} (hx : Ensures strict role x Q)
    (hf : ∀ a, Q a → Ensures strict role (f a) R) : Ensures strict role (x >>= f) R :=
  fun m hm ↦ (hx m hm).bind hm hf

/-- What stands behind a failure is not reached. -/
theorem throw_bind (f : Fault) (g : α → Eval β) {R : β → Prop} :
    Ensures strict role (MonadExcept.throw f >>= g) R :=
  (throw (Q := fun _ ↦ False) f).bind fun _ h ↦ h.elim

/-- A handler starts in the machine that the failed evaluation left. -/
theorem handle {caught : Fault → Bool} {handler : Fault → Eval α} (hx : Ensures strict role x Q)
    (hh : ∀ f, Ensures strict role (handler f) Q) :
    Ensures strict role (Eval.handle x caught handler) Q := by
  intro m hm
  have h := hx m hm
  cases hxm : x m with
  | ok a m₁ =>
    rw [hxm] at h
    rw [Eval.handle_of_ok hxm]
    exact h
  | error f m₁ =>
    rw [hxm] at h
    rw [Eval.handle_of_error hxm]
    split_ifs
    · exact Meets.of_changes h (hh f m₁ (Changes.admitted h hm))
    · exact h

theorem ofExcept {r : Except Fault α} (h : ∀ a, r = .ok a → Q a) :
    Ensures strict role (Eval.ofExcept r) Q := by
  cases r with
  | ok a => exact pure (h a rfl)
  | error f => exact throw f

/-! Operations on the machine -/

theorem get : Ensures strict role MonadState.get (Machine.Admitted strict) :=
  fun m hm ↦ ⟨.refl role m, hm⟩

theorem modify {f : Machine → Machine}
    (h : ∀ m, m.Admitted strict → Changes strict role m (f m)) :
    Ensures strict role (modify f) fun _ ↦ True :=
  fun m hm ↦ ⟨h m hm, True.intro⟩

theorem modifyFiles {f : Frame → Frame}
    (h : ∀ fr, ∃ opened closed, f fr = { fr with openFiles := opened, closedFiles := closed }) :
    Ensures strict role (modifyFrame f) fun _ ↦ True := by
  refine modify fun m _ ↦ ?_
  obtain ⟨opened, closed, heq⟩ := h m.frame
  rw [heq]
  exact .files role m opened closed

theorem modifyControl {f : Frame → Frame} (h : ∀ fr, ∃ loops withName exited,
      f fr = { fr with loops := loops, withName := withName, exited := exited }) :
    Ensures strict .statement (modifyFrame f) fun _ ↦ True := by
  refine modify fun m _ ↦ ?_
  obtain ⟨loops, withName, exited, heq⟩ := h m.frame
  rw [heq]
  exact .control .statement m loops withName exited fun _ ↦ rfl

/-- A procedure makes its changes in a frame of its own, so it may be called in any role. -/
theorem inNewFrame (hx : Ensures strict .statement x Q) :
    Ensures strict role (inNewFrame x) Q := by
  intro m hm
  have h := hx { m with frame := {}, globals := m.globals.install }
    ⟨fun _ _ hv ↦ (nomatch hv), hm.globals.install, hm.heap, hm.properties, hm.itemProperties⟩
  unfold VbaTrace.inNewFrame
  cases hxm : x { m with frame := {}, globals := m.globals.install } with
  | ok a m' =>
    rw [hxm] at h
    exact ⟨.activation role m m' h.1, h.2⟩
  | error f m' =>
    rw [hxm] at h
    exact Changes.activation role m m' h

theorem share {v : Value} (hv : Admits strict .operand v) (hrole : strict → role.assigns = true) :
    Ensures strict role (share v) (Admits strict .operand) :=
  fun m hm ↦ ⟨.share role m v hrole hv, (Heap.Stocked.box v hm.heap hv).1⟩

theorem opened {other : Role} {v : Value} (hv : Admits strict other v) :
    Ensures strict role (opened v) (Admits strict other) :=
  get.bind fun _ hm ↦ pure (Heap.Stocked.opened (fun cell w hw ↦ (hm.heap cell w hw).of_operand) hv)

/-- What is done with an opened list may depend on where it was opened. -/
theorem opened_bind {v : Value} {f : Value → Eval α}
    (h : ∀ m : Machine, m.Admitted strict → Meets strict role m Q (f (m.heap.opened v) m)) :
    Ensures strict role (VbaTrace.opened v >>= f) Q :=
  h

/-- The logic of a role. -/
def logic (strict : Prop) (role : Role) : EvalLogic (Admits strict .operand) where
  Holds := Ensures strict role
  pure := pure
  throw := throw
  bind := bind
  handle := handle
  get h _ := get.bind fun m hm ↦ h m ⟨hm.heap, hm.properties, hm.itemProperties⟩
  record ha := modify fun m _ ↦ .report role m _ ha

/-- Reading what a list holds changes nothing, whatever the list is. -/
theorem read_resolved (v : Value) : Ensures strict role (VbaTrace.resolved v) fun _ ↦ True :=
  (logic strict role).read_resolved v

theorem read_opened (v : Value) : Ensures strict role (VbaTrace.opened v) fun _ ↦ True :=
  (logic strict role).read_opened v

theorem displayed (v : Value) : Ensures strict role (displayed v) fun _ ↦ True :=
  (logic strict role).displayed v

theorem ensureWritable (v : Value) : Ensures strict role (ensureWritable v) fun _ ↦ True :=
  (logic strict role).ensureWritable v

theorem report {what : Value} (hwhat : what.isEntryHeading = false) (params description : Value) :
    Ensures strict role (report what params description) fun _ ↦ True :=
  (logic strict role).report hwhat params description

end Ensures

/-! Names -/

theorem entry?_admits {strict : Prop} {key : String} {v : Value} (h : Library.entry? key = some v) :
    Admits strict .operand v := by
  unfold Library.entry? at h
  split at h
  · rw [← Option.some.inj h]
    exact admits_routine _
  · exact libraryConstants_admitted key v h

theorem lookup_admits {strict : Prop} {m : Machine} (hm : m.Admitted strict) {name : String}
    {v : Value} (h : m.lookup name = some v) : Admits strict .operand v := by
  unfold Machine.lookup at h
  dsimp only at h
  split at h
  · next hlocal =>
    rw [← Option.some.inj h]
    exact hm.locals _ _ hlocal
  · split at h
    · next hglobal =>
      rw [← Option.some.inj h]
      exact hm.globals _ _ hglobal
    · exact entry?_admits h

namespace Ensures

variable {strict : Prop} {role : Role}

theorem fetch (name : Value) : Ensures strict role (fetch name) (Admits strict .operand) := by
  unfold VbaTrace.fetch
  refine get.bind fun m hm ↦ (displayed name).bind fun shown _ ↦ ?_
  split
  · next hv => exact pure (lookup_admits hm hv)
  · split
    · split
      · next hv => exact pure (lookup_admits hm hv)
      · exact throw _
    · exact throw _

theorem store (name : Value) {v : Value} (hv : Admits strict .operand v) (type : Option Value)
    (hrole : strict → role.assigns = true) :
    Ensures strict role (store name v type) fun _ ↦ True := by
  unfold VbaTrace.store
  split
  · next s =>
    refine (share hv hrole).bind fun w hw ↦ ?_
    exact modify fun m _ ↦ .assign role m s w type hrole hw
  · exact pure True.intro

theorem typeOf (name : Value) : Ensures strict role (typeOf name) fun _ ↦ True := by
  unfold VbaTrace.typeOf
  split
  · exact get.bind fun _ _ ↦ pure True.intro
  · exact pure True.intro

end Ensures

end VbaTrace
