import VbaTrace.Proofs.CallStatements
import VbaTrace.Proofs.Parameters

/-!
Calls of a function in its own body. The value that a function returns is kept in a local variable
with its name, which is there when the first statement begins and stays as long as the frame. A call
looks for local variables first, so it meets this variable and not the function
(`call_meets_own_variable`): nothing is evaluated, unless the variable was made to hold something
that can be, and before anything is assigned the call gives null.
-/

set_option autoImplicit false

namespace VbaTrace

/-- A local variable stays while the frame does. -/
theorem Changes.has_local {strict : Prop} {role : Role} {m m' : Machine}
    (h : Changes strict role m m') {key : String} (hkey : m.frame.locals.has key = true) :
    m'.frame.locals.has key = true := by
  induction h with
  | trans _ _ ihfirst ihlast => exact ihlast (ihfirst hkey)
  | assign _ m name v type =>
    obtain ⟨bare, heq | ⟨longer, heq⟩⟩ := m.assign_cases name v type
    · rw [heq, Machine.has_assignKey, hkey, Bool.true_or]
    · rw [heq, Machine.has_assignKey, Machine.has_assignKey, hkey, Bool.true_or, Bool.true_or]
  | refl | report | files | drop | activation | share | lengthen | control => exact hkey

/-- A function with a text for its name. -/
def Node.functionName? : Node → Option String
  | .function (.text name) .. => some name
  | _ => none

theorem Node.exists_of_functionName? {n : Node} {name : String} (h : n.functionName? = some name) :
    ∃ params body type trailing, n = .function (.text name) params body type trailing := by
  unfold functionName? at h
  split at h
  · rw [Option.some.inj h]
    exact ⟨_, _, _, _, rfl⟩
  · exact nomatch h

theorem Ensures.changes_of_ok {role : Role} {α : Type} {x : Eval α} {Q : α → Prop} {m m' : Machine}
    {a : α} (hx : Ensures False role x Q) (h : x m = .ok a m') : Changes False role m m' :=
  Eval.final_of_ok h ▸ hx.changes_final (.of_not id m)

/-- A tree or a routine, which a call evaluates. -/
def Value.isEvaluated : Value → Bool
  | .node _ | .routine _ => true
  | _ => false

namespace Semantics

variable {limit depth : Nat} {m m' : Machine}

/-! Calls -/

/-- What a call does before it looks for its name. -/
def callPrelude (evaluate : Evaluator) (name : String) (params : Value) : Eval (List Value) := do
  let args ← callArguments evaluate params
  if isNotable name then
    report (.text name) (.text (← shownArguments args)) (.text "Interesting Function Call")
  return args

/-- What a call does when a name was missing. -/
def callFallback (evaluate : Evaluator) (name : String) (args : List Value) : Eval Value :=
  if runNames.contains name then
    Eval.handle (runIndirectly evaluate args) Fault.isMissing fun _ ↦ return .null
  else return .null

theorem evalCall_eq (evaluate : Evaluator) (name : String) (params : Value) :
    evalCall evaluate name params = (do
      let args ← callPrelude evaluate name params
      Eval.handle (callNamed evaluate name args) Fault.isMissing
        fun _ ↦ callFallback evaluate name args) := by
  unfold evalCall callPrelude callArguments callFallback
  by_cases hname : isNotable name = true <;> simp [hname]

/-- What can be evaluated is, with the arguments. -/
theorem callNamed_of_isEvaluated {name : String} {w : Value} (hw : m.resolve? name = some w)
    (hevaluated : w.isEvaluated = true) (evaluate : Evaluator) (args : List Value) :
    callNamed evaluate name args m = evaluate w (some args) m := by
  unfold callNamed callValue
  rw [Eval.bind_of_ok (fetch_of_some hw)]
  cases w with
  | node | routine => rfl
  | _ => exact nomatch hevaluated

/-- The evaluation leaves the machine as it is, and does not end because something is missing. -/
def Idle {α : Type} (x : Eval α) (m : Machine) : Prop :=
  (∃ v, x m = .ok v m) ∨ ∃ f, x m = .error f m ∧ f.isMissing = false

theorem Idle.of_eq {α : Type} {x y : Eval α} (hy : Idle y m) (h : x m = y m) : Idle x m := by
  unfold Idle
  rw [h]
  exact hy

theorem Idle.final_handle {x : Eval Value} (h : Idle x m) (handler : Fault → Eval Value) :
    (Eval.handle x Fault.isMissing handler).final m = m := by
  rcases h with ⟨v, hx⟩ | ⟨f, hx, hf⟩
  · exact Eval.final_of_ok (Eval.handle_of_ok hx _ _)
  · refine Eval.final_of_error (f := f) ?_
    rw [Eval.handle_of_error hx, hf]
    rfl

theorem isMissing_of_toInt {v : Value} {f : Fault} (h : v.toInt = .error f) :
    f.isMissing = false := by
  have hfloat (x : Float) (hx : Value.floatToInt x = .error f) : f.isMissing = false := by
    unfold Value.floatToInt at hx
    split at hx
    · exact nomatch hx
    · cases hx
      split <;> rfl
  have htext (s : String) (hs : (Value.text s).toInt = .error f) : f.isMissing = false := by
    unfold Value.toInt at hs
    dsimp only at hs
    split at hs
    · exact nomatch hs
    · cases hs
      rfl
  cases v with
  | float x => exact hfloat x h
  | text s => exact htext s h
  | bool | int => exact nomatch h
  | _ =>
    cases h
    rfl

theorem idle_index (items : List Value) (arg : Value) (m : Machine) :
    Idle (do
      ensureWritable (.list items)
      let place ← Eval.ofExcept (← opened arg).toInt
      return elementOf items place) m := by
  by_cases hwritable : (m.heap.resolve (.list items)).isWritable = true
  · have hstep := ensureWritable_of_isWritable hwritable
    cases hplace : (m.heap.opened arg).toInt with
    | ok place =>
      refine .inl ⟨elementOf items place, (Eval.bind_of_ok hstep _).trans ?_⟩
      change (Eval.ofExcept (m.heap.opened arg).toInt >>= _) m = _
      rw [hplace]
      rfl
    | error f =>
      refine .inr ⟨f, (Eval.bind_of_ok hstep _).trans ?_, isMissing_of_toInt hplace⟩
      change (Eval.ofExcept (m.heap.opened arg).toInt >>= _) m = _
      rw [hplace]
      rfl
  · have hstep := ensureWritable_of_not_isWritable (Bool.eq_false_of_not_eq_true hwritable)
    exact .inr ⟨_, Eval.bind_of_error hstep _, rfl⟩

/-- Any other value is indexed or refused, and nothing is evaluated. -/
theorem idle_callNamed {name : String} {w : Value} (hw : m.resolve? name = some w)
    (hevaluated : w.isEvaluated = false) (args : List Value) :
    Idle (callNamed (evaluate limit depth) name args) m := by
  have hfetch := fetch_of_some hw
  cases w with
  | null => exact .inl ⟨.null, Eval.bind_of_ok hfetch _⟩
  | text s =>
    cases args with
    | nil => exact .inl ⟨.null, Eval.bind_of_ok hfetch _⟩
    | cons arg _ => exact .inl ⟨codeAt s (m.heap.opened arg), Eval.bind_of_ok hfetch _⟩
  | list items =>
    cases args with
    | nil => exact .inl ⟨.null, Eval.bind_of_ok hfetch _⟩
    | cons arg _ => exact (idle_index items arg m).of_eq (Eval.bind_of_ok hfetch _)
  | array cell =>
    cases args with
    | nil => exact .inl ⟨.null, Eval.bind_of_ok hfetch _⟩
    | cons arg _ => exact (idle_index (m.heap.read cell) arg m).of_eq (Eval.bind_of_ok hfetch _)
  | bool | int | float | tokens =>
    cases depth <;> exact .inr ⟨_, Eval.bind_of_ok hfetch _, rfl⟩
  | node | routine => exact nomatch hevaluated

/-! The variable with the name of a function -/

theorem final_walk (v : Value) (m : Machine) : (walk v).final m = m := by
  unfold Eval.final
  rw [walk_eq]
  cases (m.heap.opened v).walk? <;> rfl

section

variable {n : Node} {name : String} (hn : n.functionName? = some name)
  (hregistered : (activated m).globals.find? (Text.lower name) = some (.node n))

include hn hregistered

/-- A function that is registered under its name has that name as a variable before its arguments
are bound. -/
theorem find?_opening : (opening n m).frame.locals.find? (Text.lower name) = some .null := by
  obtain ⟨params, body, type, trailing, rfl⟩ := n.exists_of_functionName? hn
  have hglobal : (activated m).assignsGlobal (Text.lower name) = false := by
    simp [Machine.assignsGlobal, hregistered, Value.isProcedure]
  rw [opening_function, Machine.assign_of_outside rfl, Machine.assignKey_frame, hglobal]
  simp

theorem has_startProcedure {args : Arguments} {statements : List Value}
    (hstart : startProcedure args n (activated m) = .ok statements m') :
    m'.frame.locals.has (Text.lower name) = true := by
  have hopening : (opening n m).frame.locals.has (Text.lower name) = true := by
    rw [Table.has, find?_opening hn hregistered]
    rfl
  obtain ⟨params, body, type, trailing, rfl⟩ := n.exists_of_functionName? hn
  rw [startProcedure_eq rfl] at hstart
  have hbody : Admits False .statement body := fun h ↦ h.elim
  have hargs : AdmitsArguments False args := fun _ _ _ _ h ↦ h.elim
  have hstarts := (ensures_bindArguments params hargs).bind fun _ _ ↦ ensures_walk hbody
  exact (hstarts.changes_of_ok hstart).has_local hopening

/-- Before anything is assigned, the variable holds nothing, unless a parameter has its name. -/
theorem find?_startProcedure {args : Arguments} {statements : List Value} {names : List String}
    (hnames : n.Declares names) (hlength : (args.getD []).length ≤ names.length)
    (hothers : ∀ x ∈ names, Text.lower x ≠ Text.lower name)
    (hstart : startProcedure args n (activated m) = .ok statements m') :
    m'.frame.locals.find? (Text.lower name) = some .null := by
  have hstatements : n.hasStatements = true := by
    obtain ⟨params, body, type, trailing, rfl⟩ := n.exists_of_functionName? hn
    rfl
  rw [startProcedure_eq hstatements] at hstart
  obtain ⟨_, m₁, hbind, hwalk⟩ := Eval.bind_eq_ok hstart
  obtain ⟨k, ⟨hok, -⟩ | ⟨herror, -⟩⟩ := bindArguments_eq hnames hlength (opening n m)
  · rw [hok] at hbind
    cases hbind
    rw [← Eval.final_of_ok hwalk, final_walk,
      Machine.locals_bound (withName_opening n m) _ hothers]
    exact find?_opening hn hregistered
  · rw [herror] at hbind
    exact nomatch hbind

end

theorem changes_callPrelude (limit depth : Nat) (name : String) (params : Value)
    {values : List Value}
    (h : callPrelude (evaluate limit depth) name params m = .ok values m') :
    Changes False .statement m m' := by
  have hprelude : Ensures False .statement (callPrelude (evaluate limit depth) name params)
      fun _ ↦ True := by
    have hevaluates := evaluates False limit depth
    refine ((ensures_evalArguments hevaluates fun h ↦ h.elim).of_operand.bind fun args _ ↦
      (Ensures.ensureWritable _).bind fun _ _ ↦ .pure True.intro).bind fun args _ ↦ ?_
    dsimp only
    split
    · next hnotable =>
      refine (ensures_shownArguments args).bind fun _ _ ↦ ?_
      exact (Ensures.report (isEntryHeading_of_isNotable hnotable) _ _).bind
        fun _ _ ↦ .pure True.intro
    · exact .pure True.intro
  exact hprelude.changes_of_ok h

/-- In the frame of a function, from its first statement on, a call with the name of the function
meets the local variable of that name, or inside `With` blocks the one with their name before it.
What this holds is evaluated if it can be, indexed if it is a list or a text, and refused otherwise;
if it holds nothing, the call gives null. So the function itself runs only if the variable holds it.
Before anything is assigned the variable holds nothing, unless a parameter has its name. -/
theorem call_meets_own_variable {n : Node} {name : String} (hn : n.functionName? = some name)
    (hregistered : (activated m).globals.find? (Text.lower name) = some (.node n))
    {args : Arguments} {statements : List Value} {m₁ m₂ m₃ : Machine}
    (hstart : startProcedure args n (activated m) = .ok statements m₁)
    (hlater : Changes False .statement m₁ m₂) {spelled : String}
    (hspelled : Text.lower spelled = Text.lower name) {operands : Value} {values : List Value}
    (hprelude : callPrelude (evaluate limit depth) spelled operands m₂ = .ok values m₃) :
    (∀ names, n.Declares names → (args.getD []).length ≤ names.length →
      (∀ x ∈ names, Text.lower x ≠ Text.lower name) →
      m₁.frame.locals.find? (Text.lower name) = some .null) ∧
    ∃ v w, m₃.frame.locals.find? (Text.lower name) = some v ∧
      (m₃.lookup (m₃.frame.withName ++ spelled)).getD v = w ∧
      (w.isEvaluated = true →
        evaluate limit (depth + 1) (.node (.call spelled operands)) none m₂ =
          Eval.handle (evaluate limit depth w (some values)) Fault.isMissing
            (fun _ ↦ callFallback (evaluate limit depth) spelled values) m₃) ∧
      (w.isEvaluated = false →
        (evaluate limit (depth + 1) (.node (.call spelled operands)) none).final m₂ = m₃) ∧
      (w = .null →
        evaluate limit (depth + 1) (.node (.call spelled operands)) none m₂ = .ok .null m₃) := by
  refine ⟨fun names hnames hlength hothers ↦
    find?_startProcedure hn hregistered hnames hlength hothers hstart, ?_⟩
  have hlocal : m₃.frame.locals.has (Text.lower name) = true :=
    (hlater.trans (changes_callPrelude limit depth spelled operands hprelude)).has_local
      (has_startProcedure hn hregistered hstart)
  obtain ⟨v, hv⟩ := Option.isSome_iff_exists.mp hlocal
  have hbare : m₃.lookup spelled = some v := by
    rw [lookup_eq, hspelled, hv, Option.some_or]
  have hresolve : m₃.resolve? spelled =
      some ((m₃.lookup (m₃.frame.withName ++ spelled)).getD v) := by
    rw [Machine.resolve?, hbare]
    cases m₃.lookup (m₃.frame.withName ++ spelled) <;> rfl
  have hcall : evaluate limit (depth + 1) (.node (.call spelled operands)) none m₂ =
      Eval.handle (callNamed (evaluate limit depth) spelled values) Fault.isMissing
        (fun _ ↦ callFallback (evaluate limit depth) spelled values) m₃ := by
    change evalCall (evaluate limit depth) spelled operands m₂ = _
    rw [evalCall_eq, Eval.bind_of_ok hprelude]
  refine ⟨v, _, hv, rfl, fun hevaluated ↦ ?_, fun hevaluated ↦ ?_, fun hnull ↦ ?_⟩
  · rw [hcall]
    exact Eval.handle_congr_at (callNamed_of_isEvaluated hresolve hevaluated _ values) _ _
  · rw [Eval.final_congr hcall]
    exact (idle_callNamed hresolve hevaluated values).final_handle _
  · rw [hnull] at hresolve
    have hnamed : callNamed (evaluate limit depth) spelled values m₃ = .ok .null m₃ :=
      Eval.bind_of_ok (fetch_of_some hresolve) _
    rw [hcall, Eval.handle_of_ok hnamed]

/-- A function that shows a message. -/
def showingFunction : Node :=
  .function (.text "f") (.list []) (.list [CountingLoop.message]) .empty .null

/-- A machine with that function among its global names. -/
def withFunction : Machine :=
  { globals := { others := ⟨[("f", .node showingFunction)]⟩ } }

/-- The machine in which its first statement begins. -/
def atFirstStatement : Machine :=
  opening showingFunction withFunction

theorem find?_withFunction :
    (activated withFunction).globals.find? (Text.lower "f") = some (.node showingFunction) :=
  rfl

theorem lower_spelled : Text.lower "F" = Text.lower "f" := by
  decide +kernel

theorem startProcedure_showingFunction : startProcedure (some []) showingFunction
    (activated withFunction) = .ok [CountingLoop.message] atFirstStatement :=
  rfl

theorem callPrelude_showingFunction : callPrelude (evaluate 9 8) "F" (.list []) atFirstStatement =
    .ok [] atFirstStatement :=
  rfl

theorem call_meets_own_variable_showing :
    showingFunction.functionName? = some "f" ∧
      (activated withFunction).globals.find? (Text.lower "f") = some (.node showingFunction) ∧
      startProcedure (some []) showingFunction (activated withFunction) =
        .ok [CountingLoop.message] atFirstStatement ∧
      Changes False .statement atFirstStatement atFirstStatement ∧
      callPrelude (evaluate 9 8) "F" (.list []) atFirstStatement = .ok [] atFirstStatement ∧
      evaluate 9 9 (.node (.call "F" (.list []))) none atFirstStatement =
        .ok .null atFirstStatement := by
  have hlater : Changes False .statement atFirstStatement atFirstStatement := .refl _ _
  refine ⟨rfl, find?_withFunction, startProcedure_showingFunction, hlater,
    callPrelude_showingFunction, ?_⟩
  obtain ⟨-, v, w, hv, hw, -, -, hnull⟩ := call_meets_own_variable rfl find?_withFunction
    startProcedure_showingFunction hlater lower_spelled callPrelude_showingFunction
  exact hnull (hw ▸ rfl)

/-- A call of the function in its own body shows no message, but the function would. -/
theorem own_call_evaluates_nothing : ¬ ∀ (limit depth : Nat) (n : Node) (name spelled : String)
    (args : Arguments) (statements : List Value) (operands : Value) (values : List Value)
    (m m₁ m₂ m₃ : Machine), n.functionName? = some name →
    (activated m).globals.find? (Text.lower name) = some (.node n) →
    startProcedure args n (activated m) = .ok statements m₁ → Changes False .statement m₁ m₂ →
    Text.lower spelled = Text.lower name →
    callPrelude (evaluate limit depth) spelled operands m₂ = .ok values m₃ →
    evaluate limit (depth + 1) (.node (.call spelled operands)) none m₂ =
      Eval.handle (evaluate limit depth (.node n) (some values)) Fault.isMissing
        (fun _ ↦ callFallback (evaluate limit depth) spelled values) m₃ := by
  intro h
  have hruns := h 9 8 showingFunction "f" "F" _ _ _ _ withFunction _ _ _ rfl find?_withFunction
    startProcedure_showingFunction (.refl _ _) lower_spelled callPrelude_showingFunction
  have hsize := congrArg (fun m ↦ m.actions.size) (Eval.final_congr hruns)
  revert hsize
  decide +kernel

end Semantics

end VbaTrace
