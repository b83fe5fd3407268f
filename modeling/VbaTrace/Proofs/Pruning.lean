import VbaTrace.Proofs.CharacterLoops
import VbaTrace.Proofs.IndirectCalls

/-!
A program with assignments to unused names beside the same program without them. `Scope` tells the
names that matter: those that are assigned but not read, and those of the procedures. Its relations
describe code that reads no unused name (`Readable`, `Guard`), assignments of literals to unused
names (`Dead`), and statements and procedures that differ by such assignments (`Trims`,
`Procedure`). An assignment of anything else could nest deeper than the rest of the program, and so
fail alone.

The two runs are in machines that agree in all but the unused names and the bodies of procedures
(`Faces`). `Sim` says that two evaluations, started in such machines, end alike: both give values
that are related, or both fail with the same fault, and again in such machines. An evaluation beside
itself is a logic of evaluations (`twins`), so what the rules of expressions say of every logic holds
of the two runs.

Scope. No rule of code here speaks of `With` blocks, loops over items, selections, files, elements
that are assigned, or procedures that are called by texts.
-/

set_option autoImplicit false

namespace VbaTrace

open Semantics

/-- A value without code in it. -/
inductive Value.IsData : Value → Prop
  | null : IsData .null
  | bool (b : Bool) : IsData (.bool b)
  | int (n : Int) : IsData (.int n)
  | float (x : Float) : IsData (.float x)
  | text (s : String) : IsData (.text s)
  | array (cell : Nat) : IsData (.array cell)
  | list {vs : List Value} : (∀ v ∈ vs, IsData v) → IsData (.list vs)

/-- A truth value, a number, or a text without a dot. -/
inductive Value.IsLiteral : Value → Prop
  | bool (b : Bool) : IsLiteral (.bool b)
  | int {n : Int} : Decimal.isWritable n = true → IsLiteral (.int n)
  | float (x : Float) : IsLiteral (.float x)
  | text {s : String} : '.' ∉ s.toList → IsLiteral (.text s)

instance : ValueKind Value.IsData where
  null := .null
  bool := .bool
  int := .int
  float := .float
  text := .text
  array := .array
  list_iff _ := ⟨fun h ↦ by cases h; assumption, .list⟩
  items h := nomatch h

instance : ValueKind fun _ ↦ True := by
  constructor <;> simp

theorem Value.isData_of_isScalar {v : Value} (h : isScalar v = true) : v.IsData := by
  cases v with
  | text | int => constructor
  | _ => exact Bool.noConfusion h

theorem isData_of_find? {t : Table Value} (ht : t.entries.all (fun e ↦ isScalar e.2) = true)
    {key : String} {v : Value} (h : t.find? key = some v) : v.IsData :=
  Value.isData_of_isScalar (List.all_eq_true.mp ht _ (Table.mem_of_find? h))

/-- A function from another library. -/
def Node.isExternal : Node → Bool
  | .external .. => true
  | _ => false

/-- The lower-case names that are assigned but not read, those of the procedures, and those of
functions from other libraries. -/
structure Scope where
  unused : List String
  procedures : List String
  externals : List String
  free : ∀ key ∈ unused ++ procedures, isConstantName key = false

namespace Scope

/-! Code -/

/-- Code may call what the name stands for. -/
structure Calls (c : Scope) (name : String) : Prop where
  used : Text.lower name ∉ c.unused
  direct : runNames.contains name = false
  plain : ∀ r, Routine.find? (Text.lower name) = some r → r ∉ Routine.changing

/-- The name is that of a variable that code may read. -/
structure Reads (c : Scope) (name : String) : Prop where
  used : Text.lower name ∉ c.unused
  unbound : Text.lower name ∉ c.procedures
  inner : Text.lower name ∉ c.externals
  own : Routine.find? (Text.lower name) = none

/-- An expression that reads no unused name. -/
inductive Readable (c : Scope) : Value → Prop
  | data {v : Value} : v.IsData → v.isText = false → Readable c v
  | text {s : String} : '.' ∉ s.toList → Readable c (.text s)
  | simpleName {name : String} : c.Calls name → Text.lower name ∉ c.externals →
      Readable c (.node (.simpleName name))
  | chr {arg : Value} : Readable c arg → Readable c (.node (.chr arg))
  | asc {arg : Value} : Readable c arg → Readable c (.node (.asc arg))
  | strReverse {arg : Value} : Readable c arg → Readable c (.node (.strReverse arg))
  | environ {arg : Value} : Readable c arg → Readable c (.node (.environ arg))
  | call {name : String} {params : Value} {args : List Value} : c.Calls name →
      params.walk? = some args → (∀ v ∈ args, Readable c v) → Readable c (.node (.call name params))
  | operation {op : Operator} {operands : List Value} : (∀ v ∈ operands, Readable c v) →
      Readable c (.node (.operation op operands))

inductive Guard (c : Scope) : Value → Prop
  | readable {v : Value} : c.Readable v → Guard c v
  | comparison {lhs op rhs : Value} : Guard c lhs → Guard c rhs →
      Guard c (.node (.comparison lhs op rhs))
  | condition {lhs op rhs : Value} : Guard c lhs → Guard c rhs →
      Guard c (.node (.condition lhs op rhs))

/-- An assignment of a literal to an unused name. -/
inductive Dead (c : Scope) : Node → Prop
  | mk {name : String} {value : Value} : Text.lower name ∈ c.unused → value.IsLiteral →
      Dead c (.assign (.text name) .null value)

/-- Statements without dead ones, where `R` relates those that are kept. -/
inductive Pruned (c : Scope) (R : Node → Node → Prop) : List Value → List Value → Prop
  | nil : Pruned c R [] []
  | drop {n : Node} {ss ts : List Value} : c.Dead n → Pruned c R ss ts →
      Pruned c R (.node n :: ss) ts
  | keep {n n' : Node} {ss ts : List Value} : R n n' → n.isWritable = true →
      n'.isWritable = true → Pruned c R ss ts → Pruned c R (.node n :: ss) (.node n' :: ts)

/-- The statements of a body without dead ones; not all of them are dead. -/
inductive Shortens (c : Scope) (R : Node → Node → Prop) :
    Option (List Value) → Option (List Value) → Prop
  | mk {ss ts : List Value} : Pruned c R ss ts → (ts = [] → ss = []) →
      Shortens c R (some ss) (some ts)

inductive ShortensBranch (c : Scope) (R : Node → Node → Prop) : Branch → Branch → Prop
  | mk {guard body body' : Value} : c.Guard guard → Shortens c R body.walk? body'.walk? →
      ShortensBranch c R (.mk guard body) (.mk guard body')

/-- Statements that differ by dead ones in their bodies. -/
inductive Trims (c : Scope) : Node → Node → Prop
  | assign {name : String} {value : Value} : Text.lower name ∉ c.unused → c.Readable value →
      Trims c (.assign (.text name) .null value) (.assign (.text name) .null value)
  | callStatement {name : String} {params : Value} {args : List Value} : c.Calls name →
      c.Calls (bareName name) → params.walk? = some args → (∀ v ∈ args, c.Readable v) →
      Trims c (.callStatement (.text name) params) (.callStatement (.text name) params)
  | conditional {bs bs' : List Branch} :
      List.Forall₂ (ShortensBranch c (Trims c)) bs bs' →
      Trims c (.conditional false bs) (.conditional false bs')
  | forLoop {name : String} {start stop step body body' : Value} : c.Reads name →
      c.Readable start → c.Readable stop → c.Readable step →
      Shortens c (Trims c) body.walk? body'.walk? →
      Trims c (.forLoop (.text name) start stop step body)
        (.forLoop (.text name) start stop step body')
  | whileLoop {kind guard body body' : Value} : c.Guard guard →
      Shortens c (Trims c) body.walk? body'.walk? →
      Trims c (.whileLoop kind guard body) (.whileLoop kind guard body')
  | doLoop {kind guard body body' : Value} : c.Guard guard →
      Shortens c (Trims c) body.walk? body'.walk? →
      Trims c (.doLoop kind guard body) (.doLoop kind guard body')
  | dim {initial : Value} {declared : List Declared} : c.Readable initial →
      (∀ name isArray type, .mk name isArray type ∈ declared →
        ∃ s, name = .text s ∧ Text.lower s ∉ c.unused) →
      Trims c (.dim initial declared) (.dim initial declared)
  | idle {n : Node} : (∀ evaluate rounds, evalNode evaluate rounds n none = pure .null) →
      Trims c n n
  | exitFor : Trims c .exitFor .exitFor
  | exitDo : Trims c .exitDo .exitDo
  | exitProcedure : Trims c .exitProcedure .exitProcedure

/-- Procedures that differ by dead statements. -/
inductive Procedure (c : Scope) : Node → Node → Prop
  | sub {name : String} {params body body' : Value} {ps : List Value} : c.Calls name →
      params.walk? = some ps →
      (∀ p ∈ ps, ∀ s, parameterName p = .ok (.text s) → Text.lower s ∉ c.unused) →
      Shortens c c.Trims body.walk? body'.walk? →
      Procedure c (.sub (.text name) params body .null) (.sub (.text name) params body' .null)
  | function {name : String} {params body body' returns : Value} {ps : List Value} :
      Text.lower name ∉ c.unused → Text.lower name ∈ c.procedures → params.walk? = some ps →
      (∀ p ∈ ps, ∀ s, parameterName p = .ok (.text s) → Text.lower s ∉ c.unused) →
      Shortens c c.Trims body.walk? body'.walk? →
      Procedure c (.function (.text name) params body returns .null)
        (.function (.text name) params body' returns .null)

/-- What a name that may be called stands for in the two runs. -/
inductive Callee (c : Scope) (key : String) : Value → Value → Prop
  | data {v : Value} : v.IsData → Callee c key v v
  | routine {r : Routine} : Routine.find? key = some r → r ∉ Routine.changing →
      Callee c key (.routine r) (.routine r)
  | procedure {n n' : Node} : key ∈ c.procedures → c.Procedure n n' →
      Callee c key (.node n) (.node n')
  | external {n : Node} : key ∈ c.externals → n.isExternal = true → Callee c key (.node n) (.node n)

/-- What a global name stands for in the two runs. -/
inductive Entry (c : Scope) (key : String) : Value → Value → Prop
  | data {v : Value} : key ∉ c.unused → key ∉ c.procedures → v.IsData → Entry c key v v
  | procedure {n n' : Node} : key ∉ c.unused → key ∈ c.procedures → c.Procedure n n' →
      Entry c key (.node n) (.node n')
  | external {n : Node} : key ∉ c.unused → key ∉ c.procedures → key ∈ c.externals →
      n.isExternal = true → Entry c key (.node n) (.node n)

end Scope

/-! Machines -/

/-- A machine beside another one, with global names and local variables of its own. -/
def Machine.facing (m : Machine) (g : Globals) (l : Table Value) : Machine :=
  { m with globals := g, frame := { m.frame with locals := l } }

/-- The machines differ in unused variables and in the bodies of procedures only. -/
structure Faces (c : Scope) (m : Machine) (g : Globals) (l : Table Value) : Prop where
  locals : ∀ key ∉ c.unused, l.find? key = m.frame.locals.find? key
  data : ∀ key ∉ c.unused, ∀ v, m.frame.locals.find? key = some v → v.IsData
  types : ∀ key ∈ c.unused, m.frame.types.find? key = none
  outside : m.frame.withName = ""
  globals : ∀ key, Option.Rel (c.Entry key) (m.globals.find? key) (g.find? key)
  stocked : m.Stocked Value.IsData

/-- Two evaluations end alike, with related values or the same fault. -/
inductive Agree (c : Scope) {α β : Type} (R : α → β → Frame → Prop) (E : Frame → Prop) :
    EStateM.Result Fault Machine α → EStateM.Result Fault Machine β → Prop
  | ok {a : α} {b : β} {m : Machine} {g : Globals} {l : Table Value} : Faces c m g l →
      R a b m.frame → Agree c R E (.ok a m) (.ok b (m.facing g l))
  | error {f : Fault} {m : Machine} {g : Globals} {l : Table Value} : Faces c m g l →
      E m.frame → Agree c R E (.error f m) (.error f (m.facing g l))

/-- Evaluations that are started in machines of this kind, with `I` for their frame, end alike. -/
def Sim (c : Scope) (I : Frame → Prop) {α β : Type} (x : Eval α) (y : Eval β)
    (R : α → β → Frame → Prop) (E : Frame → Prop) : Prop :=
  ∀ m g l, Faces c m g l → I m.frame → Agree c R E (x m) (y (m.facing g l))

/-- The same value in both runs, with `I` for the frame. -/
def Same {α : Type} (Q : α → Prop) (I : Frame → Prop) (a b : α) (fr : Frame) : Prop :=
  a = b ∧ Q a ∧ I fr

namespace Sim

variable {c : Scope} {I E F : Frame → Prop} {α β γ δ : Type} {x : Eval α} {y : Eval β}
  {R : α → β → Frame → Prop} {S : γ → δ → Frame → Prop}

theorem pure {a : α} {b : β} (h : ∀ fr, I fr → R a b fr) :
    Sim c I (Pure.pure a) (Pure.pure b) R E :=
  fun _ _ _ hm hI ↦ .ok hm (h _ hI)

theorem throw (f : Fault) (h : ∀ fr, I fr → E fr) :
    Sim c I (MonadExcept.throw f) (MonadExcept.throw f) R E :=
  fun _ _ _ hm hI ↦ .error hm (h _ hI)

theorem mono {S : α → β → Frame → Prop} (hx : Sim c I x y R F) (hE : ∀ fr, F fr → E fr)
    (h : ∀ a b fr, R a b fr → S a b fr) : Sim c I x y S E := by
  intro m g l hm hI
  have hends := hx m g l hm hI
  generalize x m = r, y (m.facing g l) = r' at hends ⊢
  cases hends with
  | ok hm hR => exact .ok hm (h _ _ _ hR)
  | error hm hF => exact .error hm (hE _ hF)

theorem bind {f : α → Eval γ} {f' : β → Eval δ} (hx : Sim c I x y R E)
    (hf : ∀ a b, Sim c (R a b) (f a) (f' b) S E) : Sim c I (x >>= f) (y >>= f') S E := by
  intro m g l hm hI
  have h := hx m g l hm hI
  change Agree c S E (EStateM.bind x f m) (EStateM.bind y f' (m.facing g l))
  unfold EStateM.bind
  generalize x m = r, y (m.facing g l) = r' at h ⊢
  cases h with
  | ok hm hR => exact hf _ _ _ _ _ hm hR
  | error hm hE => exact .error hm hE

theorem of_same {x y : Eval α} {Q : α → Prop} {J : Frame → Prop} {f : α → Eval γ} {f' : α → Eval δ}
    (hx : Sim c I x y (Same Q J) E) (hf : ∀ a, Q a → Sim c J (f a) (f' a) S E) :
    Sim c I (x >>= f) (y >>= f') S E := by
  refine hx.bind fun a b m g l hm hI ↦ ?_
  obtain ⟨rfl, ha, hJ⟩ := hI
  exact hf a ha m g l hm hJ

/-- What follows need not say anything of a frame in which it fails. -/
theorem after {Q : α → Prop} {f : α → Eval γ} {f' : α → Eval δ} (hx : Sim c I x x (Same Q I) I)
    (hf : ∀ a, Q a → Sim c I (f a) (f' a) S fun _ ↦ True) :
    Sim c I (x >>= f) (x >>= f') S fun _ ↦ True :=
  .of_same (hx.mono (fun _ _ ↦ True.intro) fun _ _ _ h ↦ h) hf

theorem handle {y : Eval α} {R : α → α → Frame → Prop} {caught : Fault → Bool}
    {handler : Fault → Eval α} (hx : Sim c I x y R I) (hh : ∀ f, Sim c I (handler f) (handler f) R I) :
    Sim c I (Eval.handle x caught handler) (Eval.handle y caught handler) R I := by
  intro m g l hm hI
  have h := hx m g l hm hI
  change Agree c R I (EStateM.tryCatch x _ m) (EStateM.tryCatch y _ (m.facing g l))
  unfold EStateM.tryCatch
  generalize x m = r, y (m.facing g l) = r' at h ⊢
  cases h with
  | ok hm hR => exact .ok hm hR
  | @error f m _ _ hm hI =>
    dsimp only
    split_ifs
    · exact hh f m _ _ hm hI
    · exact .error hm hI

theorem get_bind {f : Machine → Eval γ} {f' : Machine → Eval δ}
    (h : ∀ m g l, Faces c m g l → Sim c I (f m) (f' (m.facing g l)) S E) :
    Sim c I (MonadState.get >>= f) (MonadState.get >>= f') S E :=
  fun m g l hm hI ↦ h m g l hm m g l hm hI

end Sim

theorem Faces.recorded {c : Scope} {m : Machine} {g : Globals} {l : Table Value} (hm : Faces c m g l)
    (actions : Array Action) : Faces c { m with actions := actions } g l :=
  ⟨hm.locals, hm.data, hm.types, hm.outside, hm.globals, hm.stocked.1, hm.stocked.2, hm.stocked.3⟩

theorem sim_record {c : Scope} {I : Frame → Prop} (a : Action) :
    Sim c I (modify fun m ↦ { m with actions := m.actions.push a })
      (modify fun m ↦ { m with actions := m.actions.push a }) (Same (fun _ ↦ True) I) I :=
  fun m g l hm hI ↦ .ok (m := { m with actions := m.actions.push a }) (g := g) (l := l)
    (hm.recorded _) ⟨rfl, True.intro, hI⟩

/-- An evaluation beside itself. -/
def twins (c : Scope) (I : Frame → Prop) : EvalLogic Value.IsData where
  Holds x Q := Sim c I x x (Same Q I) I
  pure h := .pure fun _ hI ↦ ⟨rfl, h, hI⟩
  throw f := .throw f fun _ h ↦ h
  bind hx hf := .of_same hx hf
  handle hx hh := .handle hx hh
  get h heq := by
    refine .get_bind fun m g l hm ↦ ?_
    rw [heq m (m.facing g l) ⟨rfl, rfl, rfl⟩]
    exact h m hm.stocked
  record _ := sim_record _

/-! Names -/

namespace Faces

variable {c : Scope} {m : Machine} {g : Globals} {l : Table Value}

theorem lookupKey (hm : Faces c m g l) {key : String} (hkey : key ∉ c.unused)
    (hplain : ∀ r, Routine.find? key = some r → r ∉ Routine.changing) :
    Option.Rel (c.Callee key) (m.lookupKey key) ((m.facing g l).lookupKey key) := by
  have hglobal := hm.globals key
  change Option.Rel _ ((m.frame.locals.find? key).or _) ((l.find? key).or ((g.find? key).or _))
  rw [hm.locals key hkey]
  generalize m.globals.find? key = found, g.find? key = found' at hglobal ⊢
  cases hlocal : m.frame.locals.find? key with
  | some v => exact .some (.data (hm.data key hkey v hlocal))
  | none =>
    cases hglobal with
    | some h =>
      cases h with
      | data _ _ hv => exact .some (.data hv)
      | procedure _ hkey h => exact .some (.procedure hkey h)
      | external _ _ hkey hn => exact .some (.external hkey hn)
    | none =>
      cases hentry : Library.entry? key with
      | none => exact .none
      | some v =>
        unfold Library.entry? at hentry
        split at hentry
        · next hr =>
          cases hentry
          exact .some (.routine hr (hplain _ hr))
        · exact .some (.data (isData_of_find? (by decide) hentry))

theorem assignsGlobal_eq (hm : Faces c m g l) {key : String} (hkey : key ∉ c.unused) :
    (m.facing g l).assignsGlobal key = m.assignsGlobal key ∧
      (m.assignsGlobal key = true → key ∉ c.procedures) := by
  have hglobal := hm.globals key
  change (!(l.find? key).isSome && (g.find? key).any _) = _ ∧ _
  unfold Machine.assignsGlobal
  rw [hm.locals key hkey]
  generalize m.globals.find? key = found, g.find? key = found' at hglobal ⊢
  cases hglobal with
  | none => simp [Table.has]
  | some h =>
    cases h with
    | data _ hkey => exact ⟨rfl, fun _ ↦ hkey⟩
    | procedure _ _ h => cases h <;> simp [Table.has, Value.isProcedure]
    | external _ hkey => exact ⟨rfl, fun _ ↦ hkey⟩

theorem assign (hm : Faces c m g l) {s : String} (hs : Text.lower s ∉ c.unused) {v : Value}
    (hv : v.IsData) (type : Option Value) :
    ∃ g' l', (m.facing g l).assign s v type = (m.assign s v type).facing g' l' ∧
      Faces c (m.assign s v type) g' l' := by
  obtain ⟨hglobal, hfree⟩ := hm.assignsGlobal_eq hs
  rw [Machine.assign_of_outside hm.outside, Machine.assign_of_outside (m := m.facing g l) hm.outside,
    Machine.assignKey_eq m, Machine.assignKey_eq (m.facing g l)]
  simp only [Machine.assignKey_frame, Machine.assignKey_globals, hglobal]
  refine ⟨_, _, rfl, ?_, ?_, ?_, hm.outside, ?_, hm.stocked.1, hm.stocked.2, hm.stocked.3⟩
  · intro key hkey
    dsimp only [Machine.facing]
    split_ifs
    · exact hm.locals key hkey
    · rw [Table.find?_put, Table.find?_put, hm.locals key hkey]
  · intro key hkey w hw
    dsimp only at hw
    split_ifs at hw
    · exact hm.data key hkey w hw
    · rw [Table.find?_put] at hw
      split_ifs at hw
      · exact Option.some.inj hw ▸ hv
      · exact hm.data key hkey w hw
  · intro key hkey
    cases type with
    | none => exact hm.types key hkey
    | some t =>
      have hne : Text.lower s ≠ key := fun h ↦ hs (h ▸ hkey)
      simp [hne, hm.types key hkey]
  · intro key
    split_ifs with hput
    · rw [Globals.find?_put, Globals.find?_put]
      split_ifs with heq
      · cases eq_of_beq heq
        exact .some (.data hs (hfree hput) hv)
      · exact hm.globals key
    · exact hm.globals key

end Faces

/-- What only asks that there are certain variables, and perhaps for flags. -/
def Frame.Lasts (I : Frame → Prop) : Prop :=
  ∀ fr locals types, (∀ key, fr.locals.has key = true → locals.has key = true) → I fr →
    I { fr with locals := locals, types := types }

section

variable {c : Scope} {I : Frame → Prop} {name : String}

end

end VbaTrace
