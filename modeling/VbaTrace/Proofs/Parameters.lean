import VbaTrace.Proofs.ProcedureExits

/-!
What the parameters of a procedure are bound to. The arguments are assigned to the names of the
parameters one after the other, in the new frame, like any other values. So a parameter becomes a
local variable only if there is no global variable of its name: such a variable takes the argument
instead, and keeps it when the procedure has ended. `globals_bound` tells what every global name
stands for behind this, and `parameters_assign_globals` puts it into the start of a procedure, for
any argument up to one that cannot be written.
-/

set_option autoImplicit false

namespace VbaTrace

namespace Machine

variable (m : Machine)

theorem globals_assignKey (key other : String) (v : Value) (type : Option Value) :
    (m.assignKey key v type).globals.find? other =
      if key = other ∧ m.assignsGlobal key = true then some v else m.globals.find? other := by
  rw [assignKey_globals]
  by_cases hglobal : m.assignsGlobal key = true
  · rw [if_pos hglobal, Globals.find?_put]
    simp [hglobal]
  · simp [hglobal]

theorem has_assignKey (key other : String) (v : Value) (type : Option Value) :
    (m.assignKey key v type).frame.locals.has other =
      (m.frame.locals.has other || (key == other && !m.assignsGlobal key)) := by
  rw [assignKey_frame]
  by_cases hglobal : m.assignsGlobal key = true
  · simp [hglobal]
  · rw [if_neg hglobal, Table.has, Table.find?_put, Bool.eq_false_of_not_eq_true hglobal]
    by_cases heq : key = other <;> simp [Table.has, heq]

/-- Assigns arguments to names, in order, with their lists in cells. -/
def bound : List String → List Value → Machine → Machine
  | name :: names, a :: as, m =>
    bound names as
      (assign { m with heap := (Heap.box a m.heap).2 } name (Heap.box a m.heap).1 none)
  | _, _, m => m

/-- What a variable holds when values have been assigned to names: a procedure, once it is there, is
not replaced. -/
def rebound (key : String) (assigned : List (String × Value)) (v : Value) : Value :=
  assigned.foldl (fun v b ↦ if Text.lower b.1 = key ∧ v.isProcedure = false then b.2 else v) v

@[simp] theorem rebound_nil (key : String) : rebound key [] = id :=
  rfl

theorem rebound_of_isProcedure {v : Value} (hv : v.isProcedure = true) (key : String)
    (assigned : List (String × Value)) : rebound key assigned v = v := by
  induction assigned with
  | nil => rfl
  | cons b bs ih => simpa [rebound, hv] using ih

theorem rebound_of_unnamed {key : String} {assigned : List (String × Value)}
    (h : ∀ b ∈ assigned, Text.lower b.1 ≠ key) (v : Value) : rebound key assigned v = v := by
  induction assigned with
  | nil => rfl
  | cons b bs ih =>
    obtain ⟨hb, hbs⟩ := List.forall_mem_cons.mp h
    simpa [rebound, hb] using ih hbs

variable {m}

/-- Under names that differ, a variable takes the value that is assigned to its name. -/
theorem rebound_of_named {front back : List (String × Value)} {b : String × Value}
    (h : ∀ d ∈ front ++ back, Text.lower d.1 ≠ Text.lower b.1) {v : Value}
    (hv : v.isProcedure = false) : rebound (Text.lower b.1) (front ++ b :: back) v = b.2 := by
  obtain ⟨hfront, hback⟩ := List.forall_mem_append.mp h
  have hbefore : rebound (Text.lower b.1) front v = v := rebound_of_unnamed hfront v
  have hafter : rebound (Text.lower b.1) back b.2 = b.2 := rebound_of_unnamed hback b.2
  unfold rebound at hbefore hafter ⊢
  rw [List.foldl_append, hbefore]
  simpa [hv] using hafter

/-- One assignment, outside of `With` blocks: a local variable keeps the global one of its name from
it. -/
theorem globals_assign (hblock : m.frame.withName = "") (name key : String) (v : Value) :
    (m.assign name v none).globals.find? key =
      if m.frame.locals.has key then m.globals.find? key
      else (m.globals.find? key).map (rebound key [(name, v)]) := by
  rw [assign_of_outside hblock, globals_assignKey]
  by_cases hname : Text.lower name = key
  · subst hname
    by_cases hlocal : m.frame.locals.has (Text.lower name) = true
    · simp [assignsGlobal, hlocal]
    · cases hglobal : m.globals.find? (Text.lower name) with
      | none => simp [assignsGlobal, hglobal]
      | some old =>
        by_cases hold : old.isProcedure = true <;>
          simp [assignsGlobal, hlocal, hglobal, hold, rebound]
  · have hsame : m.globals.find? key = (m.globals.find? key).map (rebound key [(name, v)]) := by
      cases m.globals.find? key <;> simp [rebound, hname]
    simp [hname, ← hsame]

theorem heap_assign (m : Machine) (name : String) (v : Value) (type : Option Value) :
    (m.assign name v type).heap = m.heap := by
  rw [assign_eq]

/-- An assignment makes a local variable only where there is no global one that could take the
value. -/
theorem rebound_of_has_assign (hblock : m.frame.withName = "") {name key : String} {v old : Value}
    (hlocal : m.frame.locals.has key = false)
    (hnew : (m.assign name v none).frame.locals.has key = true)
    (hold : m.globals.find? key = some old)
    (assigned : List (String × Value)) : rebound key assigned old = old := by
  rw [assign_of_outside hblock, has_assignKey, hlocal, Bool.false_or, Bool.and_eq_true] at hnew
  obtain ⟨hname, hglobal⟩ := hnew
  rw [beq_iff_eq] at hname
  refine rebound_of_isProcedure ?_ key assigned
  simpa [assignsGlobal, hname, hlocal, hold] using hglobal

/-- An assignment before others counts as one of them. -/
theorem globals_assign_first (hblock : m.frame.withName = "") (name key : String) (v : Value)
    (assigned : List (String × Value)) :
    (if (m.assign name v none).frame.locals.has key then (m.assign name v none).globals.find? key
      else ((m.assign name v none).globals.find? key).map (rebound key assigned)) =
    if m.frame.locals.has key then m.globals.find? key
      else (m.globals.find? key).map (rebound key ((name, v) :: assigned)) := by
  rw [globals_assign hblock]
  by_cases hlocal : m.frame.locals.has key = true
  · have hnew : (m.assign name v none).frame.locals.has key = true := by
      rw [assign_of_outside hblock, has_assignKey, hlocal, Bool.true_or]
    rw [if_pos hnew, if_pos hlocal, if_pos hlocal]
  · rw [if_neg hlocal, if_neg hlocal]
    cases hold : m.globals.find? key with
    | none => simp
    | some old =>
      split_ifs with hnew
      · have hstays := rebound_of_has_assign hblock (Bool.eq_false_of_not_eq_true hlocal) hnew hold
        simp [hstays]
      · rfl

/-- What the global names stand for when arguments have been assigned to names. -/
theorem globals_bound (hblock : m.frame.withName = "") (names : List String) (as : List Value)
    (key : String) :
    (bound names as m).globals.find? key =
      if m.frame.locals.has key then m.globals.find? key
      else (m.globals.find? key).map (rebound key (names.zip (Heap.boxAll as m.heap).1)) := by
  induction names generalizing as m with
  | nil => simp [bound]
  | cons name names ih =>
    cases as with
    | nil => simp [bound, Heap.boxAll]
    | cons a as =>
      have hassigned := assign_withName { m with heap := (Heap.box a m.heap).2 } name
        (Heap.box a m.heap).1 none
      rw [bound, ih (hassigned.trans hblock), heap_assign]
      exact globals_assign_first (m := { m with heap := (Heap.box a m.heap).2 }) hblock name key
        (Heap.box a m.heap).1 _

theorem locals_assign (hblock : m.frame.withName = "") {name key : String}
    (hname : Text.lower name ≠ key) (v : Value) :
    (m.assign name v none).frame.locals.find? key = m.frame.locals.find? key := by
  rw [assign_of_outside hblock, assignKey_frame]
  by_cases hglobal : m.assignsGlobal (Text.lower name) = true <;> simp [hglobal, hname]

/-- A local variable keeps its value if no argument is bound to its name. -/
theorem locals_bound (hblock : m.frame.withName = "") {names : List String} (as : List Value)
    {key : String} (h : ∀ name ∈ names, Text.lower name ≠ key) :
    (bound names as m).frame.locals.find? key = m.frame.locals.find? key := by
  induction names generalizing as m with
  | nil => rfl
  | cons name names ih =>
    obtain ⟨hname, hnames⟩ := List.forall_mem_cons.mp h
    cases as with
    | nil => rfl
    | cons a as =>
      have hassigned := assign_withName { m with heap := (Heap.box a m.heap).2 } name
        (Heap.box a m.heap).1 none
      rw [bound, ih (hassigned.trans hblock) as hnames]
      exact locals_assign (m := { m with heap := (Heap.box a m.heap).2 }) hblock hname
        (Heap.box a m.heap).1

theorem heap_bound {names : List String} {as : List Value} (h : as.length ≤ names.length) :
    (bound names as m).heap = (Heap.boxAll as m.heap).2 := by
  induction names generalizing as m with
  | nil =>
    rw [List.length_eq_zero_iff.mp (Nat.le_zero.mp h)]
    rfl
  | cons name names ih =>
    cases as with
    | nil => rfl
    | cons a as =>
      rw [bound, ih (Nat.le_of_succ_le_succ h), heap_assign]
      rfl

end Machine

/-! Procedures and their parameters -/

namespace Node

/-- The parameters of a procedure. -/
def params : Node → Value
  | .sub _ params _ _ | .function _ params _ _ _ => params
  | _ => .null

/-- The statements of a procedure. -/
def statements : Node → Value
  | .sub _ _ body _ | .function _ _ body _ _ => body
  | _ => .null

/-- The parameters of the procedure have these names. -/
def Declares (n : Node) (names : List String) : Prop :=
  ∃ vs, (∀ h : Heap, (h.opened n.params).walk? = some vs) ∧
    List.Forall₂ (fun v name ↦ ∃ type, v = .node (.parameter (.text name) type)) vs names

end Node

namespace Semantics

/-- The machine in which the arguments of a procedure are bound: a function has its own name as a
variable by then. -/
def opening (n : Node) (m : Machine) : Machine :=
  match n with
  | .function (.text name) .. => (activated m).assign name .null none
  | _ => activated m

theorem opening_function (name : String) (params body type trailing : Value) (m : Machine) :
    opening (.function (.text name) params body type trailing) m =
      (activated m).assign name .null none :=
  rfl

theorem startProcedure_eq {n : Node} (hn : n.hasStatements = true) (args : Arguments)
    (m : Machine) :
    startProcedure args n (activated m) = (do
      bindArguments n.params args
      walk n.statements) (opening n m) := by
  cases n with
  | sub => rfl
  | function name =>
    cases name <;> rfl
  | _ => exact nomatch hn

theorem withName_opening (n : Node) (m : Machine) : (opening n m).frame.withName = "" := by
  unfold opening
  split
  · exact Machine.assign_withName _ _ _ _
  · rfl

/-- The first `k` arguments are bound: all of them, or those before one that cannot be written. -/
theorem bindParameters_eq {vs : List Value} {names : List String}
    (hnames : List.Forall₂ (fun v name ↦ ∃ type, v = .node (.parameter (.text name) type)) vs names)
    {as : List Value} (hlength : as.length ≤ names.length) (m : Machine) :
    ∃ k, bindParameters vs as m = .ok () (Machine.bound names (as.take k) m) ∧ k = as.length ∨
      bindParameters vs as m = .error .wrongValue (Machine.bound names (as.take k) m) ∧
        k < as.length := by
  induction hnames generalizing as m with
  | nil =>
    rw [List.length_eq_zero_iff.mp (Nat.le_zero.mp hlength)]
    exact ⟨0, .inl ⟨rfl, rfl⟩⟩
  | @cons v name vs names hv _ ih =>
    obtain ⟨type, rfl⟩ := hv
    cases as with
    | nil => exact ⟨0, .inl ⟨rfl, rfl⟩⟩
    | cons a as =>
      have hcons : bindParameters (.node (.parameter (.text name) type) :: vs) (a :: as) m = (do
          ensureWritable a
          store (.text name) a none
          bindParameters vs as) m := rfl
      rw [hcons]
      by_cases hwritable : (m.heap.resolve a).isWritable = true
      · rw [Eval.bind_of_ok (ensureWritable_of_isWritable hwritable),
          Eval.bind_of_ok (store_text name a none m)]
        obtain ⟨k, ⟨h, hk⟩ | ⟨h, hk⟩⟩ := ih (Nat.le_of_succ_le_succ hlength) _
        · exact ⟨k + 1, .inl ⟨h, congrArg Nat.succ hk⟩⟩
        · exact ⟨k + 1, .inr ⟨h, Nat.succ_lt_succ hk⟩⟩
      · refine ⟨0, .inr ⟨?_, Nat.succ_pos _⟩⟩
        exact Eval.bind_of_error
          (ensureWritable_of_not_isWritable (Bool.eq_false_of_not_eq_true hwritable)) _

theorem bindArguments_eq {n : Node} {names : List String} (hnames : n.Declares names)
    {args : Arguments} (hlength : (args.getD []).length ≤ names.length) (m : Machine) :
    ∃ k, bindArguments n.params args m = .ok () (Machine.bound names ((args.getD []).take k) m) ∧
        k = (args.getD []).length ∨
      bindArguments n.params args m =
          .error .wrongValue (Machine.bound names ((args.getD []).take k) m) ∧
        k < (args.getD []).length := by
  obtain ⟨vs, hwalk, hvs⟩ := hnames
  rcases args with _ | _ | ⟨a, as⟩
  · refine ⟨0, .inl ⟨?_, rfl⟩⟩
    cases names <;> rfl
  · refine ⟨0, .inl ⟨?_, rfl⟩⟩
    cases names <;> rfl
  · have hparams : walk n.params m = .ok vs m := by
      rw [walk_eq, hwalk]
      rfl
    have hbind : bindArguments n.params (some (a :: as)) m = bindParameters vs (a :: as) m :=
      Eval.bind_of_ok hparams _
    rw [hbind]
    exact bindParameters_eq hvs hlength m

/-- A procedure starts by binding its arguments, in order, up to one that cannot be written. This
leaves every global name what it stands for, unless it is that of a variable, of a parameter, and of
no local variable: such a variable takes the argument. The lists that variables share keep their
items. -/
theorem parameters_assign_globals {n : Node} (hn : n.hasStatements = true) {names : List String}
    (hnames : n.Declares names) {args : Arguments}
    (hlength : (args.getD []).length ≤ names.length) (m : Machine) :
    startProcedure args n (activated m) = (do
        bindArguments n.params args
        walk n.statements) (opening n m) ∧
      ∃ k ws m',
        (bindArguments n.params args (opening n m) = .ok () m' ∧ k = (args.getD []).length ∨
          bindArguments n.params args (opening n m) = .error .wrongValue m' ∧
            k < (args.getD []).length) ∧
        (opening n m).heap.Keeps m'.heap ∧ m'.heap.HoldsAll ws ((args.getD []).take k) ∧
        (∀ key, m'.globals.find? key =
          if (opening n m).frame.locals.has key then (opening n m).globals.find? key
          else ((opening n m).globals.find? key).map (Machine.rebound key (names.zip ws))) ∧
        (∀ key, (∀ name ∈ names, Text.lower name ≠ key) →
          m'.globals.find? key = (opening n m).globals.find? key) ∧
        ∀ front b back old, names.zip ws = front ++ b :: back →
          (∀ d ∈ front ++ back, Text.lower d.1 ≠ Text.lower b.1) →
          (opening n m).frame.locals.has (Text.lower b.1) = false →
          (opening n m).globals.find? (Text.lower b.1) = some old → old.isProcedure = false →
          m'.globals.find? (Text.lower b.1) = some b.2 := by
  refine ⟨startProcedure_eq hn args m, ?_⟩
  obtain ⟨k, hends⟩ := bindArguments_eq hnames hlength (opening n m)
  have hk : k ≤ (args.getD []).length := hends.elim (·.2.le) (·.2.le)
  have hvalues : ((args.getD []).take k).length ≤ names.length :=
    (List.length_take_le k _).trans (hk.trans hlength)
  have hheap := Machine.heap_bound (m := opening n m) hvalues
  have hlaw := Machine.globals_bound (withName_opening n m) names ((args.getD []).take k)
  refine ⟨k, (Heap.boxAll ((args.getD []).take k) (opening n m).heap).1, _, hends, ?_, ?_, hlaw, ?_,
    ?_⟩
  · rw [hheap]
    exact Heap.keeps_boxAll _ _
  · rw [hheap]
    exact Heap.holdsAll_boxAll _ _
  · intro key hkey
    have hsame (v : Value) : Machine.rebound key
        (names.zip (Heap.boxAll ((args.getD []).take k) (opening n m).heap).1) v = v :=
      Machine.rebound_of_unnamed (fun b hb ↦ hkey b.1 (List.of_mem_zip hb).1) v
    rw [hlaw]
    cases (opening n m).globals.find? key <;> simp [hsame]
  · intro front b back old hzip hothers hlocal hold hvariable
    rw [hlaw, hlocal, hold, hzip]
    simp [Machine.rebound_of_named hothers hvariable]

/-- A procedure with two parameters and no statements. -/
def twoParameters : Node :=
  .sub (.text "p")
    (.list [.node (.parameter (.text "X") .null), .node (.parameter (.text "y") .null)]) (.list [])
    .null

theorem twoParameters_declares : twoParameters.Declares ["X", "y"] :=
  ⟨_, fun _ ↦ rfl, .cons ⟨_, rfl⟩ (.cons ⟨_, rfl⟩ .nil)⟩

/-- A machine with a global variable. -/
def withVariable : Machine :=
  { globals := { others := ⟨[("x", .text "old")]⟩ } }

theorem parameters_assign_globals_variable :
    twoParameters.hasStatements = true ∧ twoParameters.Declares ["X", "y"] ∧
      ∃ ws m', bindArguments twoParameters.params (some [.text "new", .list [.text "a"]])
          (opening twoParameters withVariable) = .ok () m' ∧
        m'.heap.HoldsAll ws [.text "new", .list [.text "a"]] ∧
        m'.globals.find? "x" = some (Machine.rebound "x" (["X", "y"].zip ws) (.text "old")) := by
  refine ⟨rfl, twoParameters_declares, ?_⟩
  have hlength : ((some [.text "new", .list [.text "a"]] : Arguments).getD []).length ≤
      ["X", "y"].length := by decide
  obtain ⟨-, k, ws, m', hends, -, hholds, hlaw, -, -⟩ :=
    parameters_assign_globals rfl twoParameters_declares hlength withVariable
  rcases hends with ⟨hok, rfl⟩ | ⟨herror, -⟩
  · exact ⟨ws, m', hok, hholds, hlaw "x"⟩
  · exact nomatch herror

/-- The variable of the caller takes the argument. -/
theorem parameter_overwrites_global : ¬ ∀ (n : Node) (names : List String) (args : Arguments)
    (m m' : Machine) (key : String) (v : Value), n.hasStatements = true → n.Declares names →
    (args.getD []).length ≤ names.length → m.globals.find? key = some v → v.isProcedure = false →
    bindArguments n.params args (opening n m) = .ok () m' → m'.globals.find? key = some v := by
  intro h
  have hsame := h twoParameters _ (some [.text "new"]) withVariable _ "x" (.text "old") rfl
    twoParameters_declares (by decide) rfl rfl rfl
  have htexts := Value.text.inj (Option.some.inj hsame)
  exact absurd htexts (by decide)

end Semantics

end VbaTrace
