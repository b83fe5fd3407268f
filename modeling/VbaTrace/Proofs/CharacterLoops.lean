import VbaTrace.Proofs.Substrings
import VbaTrace.Proofs.Variables

/-!
Counting loops, and the loop that copies a text character by character. A loop that counts from one
keeps what each of its rounds keeps (`forRounds_counts`). Behind `k` rounds of a copy loop the target
holds the first `k` characters and the index is `k + 1`, and no other variable has changed
(`CopyLoop.Copying`), so that the loop ends with the whole text copied.

The index is a variable like any other. If it is called as the routine that the body calls, it hides
this routine, and the first round fails.
-/

set_option autoImplicit false

namespace VbaTrace

/-- A routine is found by its name in any case. -/
theorem Routine.lower_name (r : Routine) : Text.lower r.name = r.key := by
  refine Text.lower_eq_of_isAscii (by cases r <;> decide) ?_
  rw [key, String.toList_ofList]

namespace Semantics

section

variable {m : Machine} {rounds depth : Nat} {name : String} {v : Value}

theorem fetch_of_outside (houtside : m.frame.withName = "") (hv : m.lookup name = some v) :
    fetch (.text name) m = .ok v m := by
  refine fetch_of_some ?_
  rw [Machine.resolve?, houtside, String.empty_append, hv, Option.some_or]

theorem walk_ofList (vs : List Value) (m : Machine) :
    walk (.tokens (.ofList vs)) m = .ok vs m :=
  rfl

/-! Names and calls of routines as operands -/

theorem gives_fetched (hv : fetch (.text name) m = .ok v m)
    (hwritable : (m.heap.resolve v).isWritable = true) (hcallable : isCallable v = false) :
    Gives (evaluate rounds (depth + 1)) m (.node (.simpleName name)) v := by
  refine evalOperand_node_iff.mpr ⟨rfl, Eval.handle_of_ok ?_ _ _⟩
  rw [Eval.bind_of_ok hv, Eval.bind_of_ok (ensureWritable_of_isWritable hwritable), hcallable]
  rfl

theorem gives_name (houtside : m.frame.withName = "") (hv : m.lookup name = some v)
    (hwritable : (m.heap.resolve v).isWritable = true) (hcallable : isCallable v = false) :
    Gives (evaluate rounds (depth + 1)) m (.node (.simpleName name)) v :=
  gives_fetched (fetch_of_outside houtside hv) hwritable hcallable

/-- What a call does once its arguments are known. -/
theorem evaluate_call_of_gives {args vs : List Value} (hname : isNotable name = false)
    (hargs : List.Forall₂ (Gives (evaluate rounds depth) m) args vs)
    (hwritable : (m.heap.resolve (.list vs)).isWritable = true) :
    evaluate rounds (depth + 1) (.node (.call name (.tokens (.ofList args)))) none m =
      Eval.handle (callNamed (evaluate rounds depth) name vs) Fault.isMissing
        (fun _ ↦
          if runNames.contains name then
            Eval.handle (runIndirectly (evaluate rounds depth) vs) Fault.isMissing
              fun _ ↦ return .null
          else return .null) m := by
  have hwalk : evalArguments (evaluate rounds depth) (.tokens (.ofList args)) m = .ok vs m :=
    (Eval.bind_of_ok (walk_ofList args m) _).trans (evalOperands_of_gives hargs)
  change evalCall (evaluate rounds depth) name (.tokens (.ofList args)) m = _
  unfold evalCall
  rw [Eval.bind_of_ok hwalk, Eval.bind_of_ok (ensureWritable_of_isWritable hwritable), hname]
  rfl

theorem gives_routine {args vs : List Value} {r : Routine} (houtside : m.frame.withName = "")
    (hr : m.lookup name = some (.routine r)) (hname : isNotable name = false)
    (hargs : List.Forall₂ (Gives (evaluate rounds (depth + 1)) m) args vs)
    (hshown : allWritable args = true)
    (hwritable : (m.heap.resolve (.list vs)).isWritable = true)
    (hcall : r.call (evaluate rounds depth) (some vs) m = .ok v m) :
    Gives (evaluate rounds (depth + 2)) m (.node (.call name (.tokens (.ofList args)))) v := by
  refine evalOperand_node_iff.mpr ⟨hshown, ?_⟩
  refine (evaluate_call_of_gives hname hargs hwritable).trans (Eval.handle_of_ok ?_ _ _)
  unfold callNamed callValue
  rw [Eval.bind_of_ok (fetch_of_outside houtside hr)]
  exact hcall

/-- A number cannot be called, and that is no missing name. -/
theorem evaluate_call_of_int {args vs : List Value} {n : Int} (houtside : m.frame.withName = "")
    (hn : m.lookup name = some (.int n)) (hname : isNotable name = false)
    (hargs : List.Forall₂ (Gives (evaluate rounds (depth + 1)) m) args vs)
    (hwritable : (m.heap.resolve (.list vs)).isWritable = true) :
    evaluate rounds (depth + 2) (.node (.call name (.tokens (.ofList args)))) none m =
      .error .noMember m := by
  have hcall : callNamed (evaluate rounds (depth + 1)) name vs m = .error .noMember m := by
    unfold callNamed callValue
    rw [Eval.bind_of_ok (fetch_of_outside houtside hn)]
    rfl
  exact (evaluate_call_of_gives hname hargs hwritable).trans (Eval.handle_of_error hcall _ _)

end

/-! Counting loops -/

section

variable {evaluate : Evaluator} {index : String} {body : List Value} {last : Nat}
  {Inv : Nat → Machine → Prop}

/-- The rounds of a loop that counts from one, with what holds behind each of them. -/
structure Counts (evaluate : Evaluator) (index : String) (body : List Value) (last : Nat)
    (Inv : Nat → Machine → Prop) : Prop where
  value : ∀ k m, Inv k m → fetch (.text index) m = .ok (.int (k + 1)) m
  round : ∀ k m, k < last → Inv k m → ∃ m₁, evalBody evaluate body m = .ok false m₁ ∧
    fetch (.text index) m₁ = .ok (.int (k + 1)) m₁ ∧
    Inv (k + 1) (m₁.assign index (.int (k + 1 + 1)) none)

theorem isAtMost_int (n last : Int) (m : Machine) :
    isAtMost (.int n) last m = .ok (decide (n ≤ last)) m := by
  change Eval.ofExcept (Value.related .lessOrEqual (.int n) (.int last)) m = _
  rw [Value.related_ints]
  rfl

/-- The loop ends, and what its rounds keep holds behind the last one. -/
theorem forRounds_counts (h : Counts evaluate index body last Inv)
    (hwritable : ∀ n : Nat, n ≤ last → Decimal.isWritable n = true) {rounds k : Nat} {m : Machine}
    (hrounds : last < rounds + k) (hk : k ≤ last) (hm : Inv k m) :
    ∃ m', forRounds evaluate (.text index) last (.int 1) (.tokens (.ofList body)) rounds m =
      .ok () m' ∧ Inv last m' := by
  induction rounds generalizing k m with
  | zero => omega
  | succ rounds ih =>
    have hvalue := h.value k m hm
    unfold forRounds
    rw [Eval.bind_of_ok hvalue, Eval.bind_of_ok (isAtMost_int _ _ _)]
    by_cases hlast : k = last
    · subst hlast
      have hdone : ¬ ((k : Int) + 1 ≤ k) := by omega
      exact ⟨m, by simp only [hdone, decide_false]; rfl, hm⟩
    · have hlt : k < last := by omega
      have hgoes : (k : Int) + 1 ≤ last := by omega
      obtain ⟨m₁, hbody, hindex, hnext⟩ := h.round k m hlt hm
      obtain ⟨m', hloop, hdone⟩ := ih (by omega) hlt hnext
      have hint : (m.heap.resolve (.int ((k : Int) + 1))).isWritable = true :=
        isWritable_resolve_int m.heap (hwritable (k + 1) hlt)
      refine ⟨m', ?_, hdone⟩
      simp only [hgoes, decide_true, if_true]
      rw [Eval.bind_of_ok (ensureWritable_of_isWritable hint), Eval.bind_of_ok (walk_ofList body m),
        Eval.bind_of_ok hbody]
      simp only [Bool.false_eq_true, if_false]
      rw [Eval.bind_of_ok hindex]
      exact hloop

/-- A round that fails ends the loop. -/
theorem forRounds_of_error (rounds : Nat) (step : Value) {m m₁ : Machine} {n : Int} {stop : Int}
    {f : Fault} (hindex : fetch (.text index) m = .ok (.int n) m) (hstop : n ≤ stop)
    (hwritable : Decimal.isWritable n = true) (hbody : evalBody evaluate body m = .error f m₁) :
    forRounds evaluate (.text index) stop step (.tokens (.ofList body)) (rounds + 1) m =
      .error f m₁ := by
  unfold forRounds
  rw [Eval.bind_of_ok hindex, Eval.bind_of_ok (isAtMost_int _ _ _)]
  simp only [hstop, decide_true, if_true]
  rw [Eval.bind_of_ok (ensureWritable_of_isWritable (isWritable_resolve_int m.heap hwritable)),
    Eval.bind_of_ok (walk_ofList body m)]
  exact Eval.bind_of_error hbody _

theorem loopRuns_of_loops {m : Machine} {runs : Bool} {outer : List Bool}
    (h : m.frame.loops = runs :: outer) : loopRuns m = .ok runs m := by
  unfold loopRuns
  rw [Eval.bind_of_ok (rfl : (get : Eval Machine) m = .ok m m)]
  simp only [h]
  rfl

theorem popLoop_of_loops {m : Machine} {runs : Bool} {outer : List Bool}
    (h : m.frame.loops = runs :: outer) :
    popLoop m = .ok () { m with frame := { m.frame with loops := outer } } := by
  unfold popLoop
  rw [Eval.bind_of_ok (rfl : (get : Eval Machine) m = .ok m m)]
  simp only [h]
  rfl

/-- A body of one statement that leaves no loop. -/
theorem evalBody_of_ok {n : Node} {v : Value} {m m₁ : Machine} {outer : List Bool}
    (hn : n.isWritable = true) (h : evaluate (.node n) none m = .ok v m₁)
    (hloops : m₁.frame.loops = true :: outer) :
    evalBody evaluate [.node n] m = .ok false m₁ := by
  rw [evalBody, Eval.bind_of_ok (ensureWritable_node hn m), Eval.bind_of_ok h,
    Eval.bind_of_ok (loopRuns_of_loops hloops)]
  rfl

theorem evalBody_of_error {n : Node} {m m₁ : Machine} {f : Fault} (hn : n.isWritable = true)
    (h : evaluate (.node n) none m = .error f m₁) (rest : List Value) :
    evalBody evaluate (.node n :: rest) m = .error f m₁ := by
  rw [evalBody, Eval.bind_of_ok (ensureWritable_node hn m)]
  exact Eval.bind_of_error h _

/-- The machine inside one more loop. -/
def insideLoop (m : Machine) : Machine :=
  { m with frame := { m.frame with loops := true :: m.frame.loops } }

/-- A loop that counts from one up to a number that the bound on loops allows. -/
theorem evalFor_of_gives {rounds : Nat} {m : Machine} {stop body : Value}
    (hstop : Gives evaluate m stop (.int last)) (hlast : Decimal.isWritable last = true)
    (hbound : m.loopBound ≤ 0 ∨ (last : Int) ≤ m.loopBound) :
    evalFor evaluate rounds (.text index) (.int 1) stop (.int 1) body m =
      (do
        forRounds evaluate (.text index) last (.int 1) body rounds
        popLoop
        return .null : Eval Value) ((insideLoop m).assign index (.int 1) none) := by
  have hone := isWritable_one
  have hbounded : loopStop m.loopBound (.int last) = last := by
    have hnot : ¬ (0 < m.loopBound ∧ m.loopBound < last) := by omega
    have hcaps : (0 < m.loopBound && m.loopBound < last) = false := by
      simpa only [← Bool.decide_and, decide_eq_false_iff_not] using hnot
    change (if 0 < m.loopBound && m.loopBound < last then m.loopBound else (last : Int)) = last
    rw [hcaps]
    rfl
  have hstep : loopStep evaluate (.int 1) m = .ok (.int 1) m := by
    rw [loopStep, Value.equals_ints]
    rfl
  unfold evalFor
  rw [Eval.bind_of_ok (gives_int hone),
    Eval.bind_of_ok (ensureWritable_of_isWritable (isWritable_resolve_int m.heap hone)),
    Eval.bind_of_ok hstop]
  have hint : (Value.int last).isInt = true := rfl
  simp only [hint, if_true]
  rw [Eval.bind_of_ok (ensureWritable_of_isWritable (isWritable_resolve_int m.heap hlast)),
    Eval.bind_of_ok (rfl : (get : Eval Machine) m = .ok m m), hbounded, Eval.bind_of_ok hstep]
  rfl

end

/-! Assignments of texts -/

theorem not_isTyped_of_ne {type : String} {found : Option Value}
    (h : found ≠ some (.text type)) : isTyped type (found.getD .null) = false := by
  rcases found with - | v
  · rfl
  · cases v with
    | text t =>
      simp only [ne_eq, Option.some.injEq, Value.text.injEq] at h
      simp [isTyped, h]
    | _ => rfl

theorem convertFor_text {type : Value} {cs : List Char} (h : isTyped "Byte Array" type = false) :
    convertFor type (.ofChars cs) (.ofChars cs) = .ofChars cs := by
  simp [convertFor, Value.ofChars, h]

/-- An assignment stores what the type of the variable makes of the value. -/
theorem evalAssign_of_ok {evaluate : Evaluator} {m m₁ : Machine} {name : String}
    {expression v : Value} (hvalue : evalOperand evaluate expression m = .ok v m₁)
    (hwritable : (m₁.heap.resolve v).isWritable = true) {new : Value}
    (hnew : convertFor ((m₁.frame.types.find? (Text.lower name)).getD .null) v (m₁.heap.opened v) =
      new) :
    evalAssign evaluate (.text name) .null expression m =
      .ok .null (Machine.assign { m₁ with heap := (Heap.box new m₁.heap).2 } name
        (Heap.box new m₁.heap).1 none) := by
  unfold evalAssign
  rw [Eval.bind_of_ok hvalue, Eval.bind_of_ok (ensureWritable_of_isWritable hwritable), ← hnew]
  rfl

/-- A text is assigned as it is, but to a list of bytes. -/
theorem evalAssign_of_text {evaluate : Evaluator} {m : Machine} {name : String} {expression : Value}
    {cs : List Char} (hexpression : Gives evaluate m expression (.ofChars cs))
    (htype : m.frame.types.find? (Text.lower name) ≠ some (.text "Byte Array")) :
    evalAssign evaluate (.text name) .null expression m =
      .ok .null (m.assign name (.ofChars cs) none) := by
  have hbox : Heap.box (.ofChars cs) m.heap = (.ofChars cs, m.heap) := rfl
  rw [evalAssign_of_ok hexpression rfl (convertFor_text (not_isTyped_of_ne htype)), hbox]

/-! The copy loop -/

/-- The variables of a loop that copies one text behind another, character by character. -/
structure CopyLoop where
  source : String
  target : String
  index : String
deriving DecidableEq

namespace CopyLoop

/-- The call of `Mid` for the character that the index is at. -/
def character (l : CopyLoop) : Node :=
  .call "Mid" (.tokens (.ofList [.node (.simpleName l.source), .node (.simpleName l.index), .int 1]))

/-- The only statement of the body, as in `dst = dst & Mid(src, i, 1)`. -/
def statement (l : CopyLoop) : Node :=
  .assign (.text l.target) .null
    (.node (.operation .concatenate [.node (.simpleName l.target), .node l.character]))

/-- The loop, as in `For i = 1 To Len(src)`. -/
def node (l : CopyLoop) : Node :=
  .forLoop (.text l.index) (.int 1)
    (.node (.call "Len" (.tokens (.ofList [.node (.simpleName l.source)])))) (.int 1)
    (.tokens (.ofList [.node l.statement]))

/-- The variables of the copy loop that a value is. -/
def ofValue? : Value → Option CopyLoop
  | .node (.forLoop (.text index) (.int 1)
      (.node (.call "Len" (.tokens (.mk [.node (.simpleName source)] [])))) (.int 1)
      (.tokens (.mk [.node (.assign (.text target) .null (.node (.operation .concatenate
        [.node (.simpleName target'), .node (.call "Mid" (.tokens
          (.mk [.node (.simpleName source'), .node (.simpleName index'), .int 1] [])))])))] []))) =>
    if source' = source ∧ target' = target ∧ index' = index then some ⟨source, target, index⟩
    else none
  | _ => none

example :
    (Grammar.readFront .forStatement
      "For i = 1 To Len(src)\n dst = dst & Mid(src, i, 1)\nNext\n").toOption.bind
        (fun r ↦ r.tokens.items.head?.bind ofValue?) = some ⟨"src", "dst", "i"⟩ := by
  decide +kernel

/-- The machine is about to copy a text with the loop. -/
structure Ready (l : CopyLoop) (s : String) (m : Machine) : Prop where
  outside : m.frame.withName = ""
  source : m.lookup l.source = some (.text s)
  target : m.lookup l.target = some .empty
  source_ne_target : Text.lower l.source ≠ Text.lower l.target
  source_ne_index : Text.lower l.source ≠ Text.lower l.index
  target_ne_index : Text.lower l.target ≠ Text.lower l.index
  notDocument : s ≠ "ActiveDocument"
  notBytes : m.frame.types.find? (Text.lower l.target) ≠ some (.text "Byte Array")
  /-- Neither local nor global names hide the two routines. -/
  visible : ∀ key ∈ ["len", "mid"], m.frame.locals.find? key = none ∧ m.globals.find? key = none
  bounded : m.loopBound ≤ 0 ∨ (s.length : Int) ≤ m.loopBound
  /-- The length has a base-ten text, as it has for every text that fits into a memory. -/
  written : Decimal.isWritable s.length = true

/-- Only the two variables that the loop assigns may differ. -/
structure Sets (l : CopyLoop) (m m' : Machine) : Prop where
  others : ∀ name, Text.lower name ≠ Text.lower l.target →
    Text.lower name ≠ Text.lower l.index → m'.lookup name = m.lookup name
  rest : m' = { m with
    globals := m'.globals, frame := { m.frame with locals := m'.frame.locals } }

/-- The first characters are copied. -/
structure Copying (l : CopyLoop) (s : String) (m : Machine) (k : Nat) (m' : Machine) : Prop where
  target : m'.lookup l.target = some (.ofChars (s.toList.take k))
  index : m'.lookup l.index = some (.int (k + 1))
  sets : l.Sets m m'

variable {l : CopyLoop} {s : String} {m m' : Machine}

theorem Sets.refl (l : CopyLoop) (m : Machine) : l.Sets m m :=
  ⟨fun _ _ _ ↦ rfl, rfl⟩

theorem Sets.outside (h : l.Sets m m') : m'.frame.withName = m.frame.withName := by
  rw [h.rest]

theorem Sets.types (h : l.Sets m m') : m'.frame.types = m.frame.types := by
  rw [h.rest]

theorem Sets.loops (h : l.Sets m m') : m'.frame.loops = m.frame.loops := by
  rw [h.rest]

theorem Sets.assign {name : String} (h : l.Sets m m') (houtside : m.frame.withName = "")
    (hname : name = l.target ∨ name = l.index) (v : Value) : l.Sets m (m'.assign name v none) := by
  have hassign := Machine.assign_of_outside (h.outside.trans houtside) name v none
  constructor
  · intro other htarget hindex
    have hne : Text.lower name ≠ Text.lower other := by
      rcases hname with rfl | rfl
      · exact Ne.symm htarget
      · exact Ne.symm hindex
    rw [hassign, Machine.lookup_eq_lookupKey, Machine.lookupKey_assignKey, if_neg hne,
      ← Machine.lookup_eq_lookupKey]
    exact h.others other htarget hindex
  · rw [hassign, Machine.assignKey_eq, Machine.assignKey_frame, Machine.assignKey_globals, h.rest]
    rfl

theorem lookup_assign_self (name : String) (v : Value) (m : Machine) :
    (m.assign name v none).lookup name = some v := by
  rw [Machine.lookup_assign]
  simp

theorem lookup_assign_other {name other : String} (houtside : m.frame.withName = "") (v : Value)
    (h : Text.lower other ≠ Text.lower name) :
    (m.assign name v none).lookup other = m.lookup other := by
  rw [Machine.lookup_assign]
  simp [houtside, h]

theorem Ready.insideLoop (h : l.Ready s m) : l.Ready s (insideLoop m) :=
  ⟨h.outside, h.source, h.target, h.source_ne_target, h.source_ne_index, h.target_ne_index,
    h.notDocument, h.notBytes, h.visible, h.bounded, h.written⟩

theorem Ready.lookup_routine (h : l.Ready s m) {r : Routine} (hr : r ∈ [Routine.len, .mid]) :
    m.lookup r.name = some (.routine r) := by
  have hkey : r.key ∈ ["len", "mid"] := List.mem_map_of_mem (f := Routine.key) hr
  have hentry : ∀ r ∈ [Routine.len, .mid], Library.entry? r.key = some (.routine r) :=
    List.forall_mem_cons.mpr ⟨rfl, List.forall_mem_singleton.mpr rfl⟩
  obtain ⟨hlocal, hglobal⟩ := h.visible r.key hkey
  rw [lookup_eq, r.lower_name, hlocal, hglobal, hentry r hr]
  rfl

theorem isNotable_routines : ∀ r ∈ [Routine.len, .mid], isNotable r.name = false := by
  decide +kernel

theorem Ready.lookup_mid (h : l.Ready s m) : m.lookup "Mid" = some (.routine .mid) :=
  h.lookup_routine (r := .mid) (by simp)

/-- The target holds a text, so that it is not called as the routine. -/
theorem Ready.mid_ne_target (h : l.Ready s m) : Text.lower "Mid" ≠ Text.lower l.target := by
  intro heq
  have hmid := h.lookup_mid
  rw [Machine.lookup_eq_lookupKey, heq, ← Machine.lookup_eq_lookupKey, h.target] at hmid
  exact nomatch hmid

theorem Ready.isWritable (h : l.Ready s m) {n : Nat} (hn : n ≤ s.length) :
    Decimal.isWritable n = true :=
  Decimal.isWritable_of_natAbs_le h.written hn

theorem isWritable_character (l : CopyLoop) : l.character.isWritable = true := by
  simp [character, Tokens.ofList, Node.isWritable, Value.isWritable, allWritable, isWritable_one]

theorem isWritable_joined (l : CopyLoop) :
    (Node.operation .concatenate [.node (.simpleName l.target), .node l.character]).isWritable =
      true := by
  simp [Node.isWritable, Value.isWritable, allWritable, l.isWritable_character]

theorem isWritable_statement (l : CopyLoop) : l.statement.isWritable = true := by
  simp [statement, Node.isWritable, Value.isWritable, allWritable, l.isWritable_character]

variable {rounds depth k : Nat}

theorem gives_source (h : l.Ready s m) (hm : l.Sets m m') :
    Gives (evaluate rounds (depth + 1)) m' (.node (.simpleName l.source)) (.text s) :=
  gives_name (hm.outside.trans h.outside)
    ((hm.others _ h.source_ne_target h.source_ne_index).trans h.source) rfl rfl

/-- The length is found before the index is assigned. -/
theorem gives_length (h : l.Ready s m) :
    Gives (evaluate rounds (depth + 2)) m
      (.node (.call "Len" (.tokens (.ofList [.node (.simpleName l.source)])))) (.int s.length) :=
  gives_routine h.outside (h.lookup_routine (r := .len) (by simp)) (isNotable_routines .len (by simp))
    (.cons (gives_source h (.refl l m)) .nil) rfl (isWritable_resolve_list _ rfl) rfl

theorem gives_arguments (h : l.Ready s m) (hk : k < s.length) (hm : l.Copying s m k m') :
    List.Forall₂ (Gives (evaluate rounds (depth + 1)) m')
      [.node (.simpleName l.source), .node (.simpleName l.index), .int 1]
      [.text s, .int (k + 1), .int 1] := by
  have houtside := hm.sets.outside.trans h.outside
  have hindex : (m'.heap.resolve (.int ((k : Int) + 1))).isWritable = true :=
    isWritable_resolve_int m'.heap (h.isWritable (n := k + 1) hk)
  refine .cons (gives_source h hm.sets) (.cons ?_ (.cons (gives_int isWritable_one) .nil))
  exact gives_name houtside hm.index hindex rfl

theorem writable_arguments (h : l.Ready s m) (hk : k < s.length) :
    (m'.heap.resolve (.list [.text s, .int (k + 1), .int 1])).isWritable = true := by
  refine isWritable_resolve_list _ ?_
  have hindex : Decimal.isWritable ((k : Int) + 1) = true := h.isWritable (n := k + 1) hk
  simp [isWritableScalar, hindex, isWritable_one]

theorem gives_character (h : l.Ready s m) (hmid : Text.lower l.index ≠ "mid") (hk : k < s.length)
    (hm : l.Copying s m k m') :
    Gives (evaluate rounds (depth + 2)) m' (.node l.character)
      (.ofChars ((s.toList.drop k).take 1)) := by
  have hroutine : m'.lookup "Mid" = some (.routine .mid) := by
    rw [hm.sets.others "Mid" h.mid_ne_target (Routine.mid.lower_name ▸ Ne.symm hmid), h.lookup_mid]
  refine gives_routine (hm.sets.outside.trans h.outside) hroutine (isNotable_routines .mid (by simp))
    (gives_arguments h hk hm) l.isWritable_character (writable_arguments h hk) ?_
  have hplace : (max ((k : Int) + 1) 1 - 1).toNat = k := by omega
  rw [Routine.call_mid _ m' h.notDocument, Library.middle_cut, Library.middle_from, hplace]
  rfl

/-- One statement copies one more character. -/
theorem evaluate_statement (rounds depth : Nat) (h : l.Ready s m)
    (hmid : Text.lower l.index ≠ "mid") (hk : k < s.length) (hm : l.Copying s m k m') :
    evaluate rounds (depth + 4) (.node l.statement) none m' =
      .ok .null (m'.assign l.target (.ofChars (s.toList.take (k + 1))) none) := by
  have houtside := hm.sets.outside.trans h.outside
  have hjoined : Gives (evaluate rounds (depth + 3)) m'
      (.node (.operation .concatenate [.node (.simpleName l.target), .node l.character]))
      (.ofChars [s.toList.take k, (s.toList.drop k).take 1].flatten) :=
    evalOperand_node_iff.mpr ⟨l.isWritable_joined, evalConcatenation_of_texts
      (.cons (gives_name houtside hm.target rfl rfl) (.cons (gives_character h hmid hk hm) .nil))⟩
  have hflatten : [s.toList.take k, (s.toList.drop k).take 1].flatten = s.toList.take (k + 1) := by
    simp [List.take_add]
  rw [hflatten] at hjoined
  exact evalAssign_of_text hjoined (hm.sets.types ▸ h.notBytes)

/-- One round copies one more character. -/
theorem Copying.round (h : l.Ready s m) (hmid : Text.lower l.index ≠ "mid") {outer : List Bool}
    (hloops : m.frame.loops = true :: outer) (hk : k < s.length) (hm : l.Copying s m k m') :
    ∃ m₁, evalBody (evaluate rounds (depth + 4)) [.node l.statement] m' = .ok false m₁ ∧
      fetch (.text l.index) m₁ = .ok (.int (k + 1)) m₁ ∧
      l.Copying s m (k + 1) (m₁.assign l.index (.int (k + 1 + 1)) none) := by
  have houtside := hm.sets.outside.trans h.outside
  have hstatement := evaluate_statement rounds depth h hmid hk hm
  have hsets := hm.sets.assign h.outside (.inl rfl) (.ofChars (s.toList.take (k + 1)))
  have houtside₁ := hsets.outside.trans h.outside
  have hindex : (m'.assign l.target (.ofChars (s.toList.take (k + 1))) none).lookup l.index =
      some (.int (k + 1)) := by
    rw [lookup_assign_other houtside _ (Ne.symm h.target_ne_index), hm.index]
  refine ⟨_, evalBody_of_ok l.isWritable_statement hstatement (hsets.loops.trans hloops),
    fetch_of_outside houtside₁ hindex, ?_, lookup_assign_self _ _ _,
    hsets.assign h.outside (.inr rfl) _⟩
  rw [lookup_assign_other houtside₁ _ h.target_ne_index, lookup_assign_self]

theorem counts (h : l.Ready s m) (hmid : Text.lower l.index = "mid" → s = "") {outer : List Bool}
    (hloops : m.frame.loops = true :: outer) :
    Counts (evaluate rounds (depth + 4)) l.index [.node l.statement] s.length (l.Copying s m) := by
  constructor
  · exact fun k m' hm ↦ fetch_of_outside (hm.sets.outside.trans h.outside) hm.index
  · intro k m' hk hm
    have hvisible : Text.lower l.index ≠ "mid" := by
      intro heq
      rw [hmid heq] at hk
      exact Nat.not_lt_zero k hk
    exact hm.round h hvisible hloops hk

theorem copying_start (h : l.Ready s m) :
    l.Copying s m 0 (m.assign l.index (.int 1) none) := by
  refine ⟨?_, lookup_assign_self _ _ _, (Sets.refl l m).assign h.outside (.inr rfl) _⟩
  rw [lookup_assign_other h.outside _ h.target_ne_index, h.target]
  rfl

/-- Leaving the loop restores the loops around it. -/
theorem Sets.leaveLoop (h : l.Sets (insideLoop m) m') :
    l.Sets m { m' with frame := { m'.frame with loops := m.frame.loops } } := by
  refine ⟨h.others, ?_⟩
  conv_lhs => rw [h.rest]
  rfl

theorem evaluate_node (h : l.Ready s m) :
    evaluate rounds (depth + 5) (.node l.node) none m =
      (do
        forRounds (evaluate rounds (depth + 4)) (.text l.index) s.length (.int 1)
          (.tokens (.ofList [.node l.statement])) rounds
        popLoop
        return .null : Eval Value) ((Semantics.insideLoop m).assign l.index (.int 1) none) :=
  evalFor_of_gives (gives_length h) (h.isWritable (Nat.le_refl _)) h.bounded

theorem evaluate_node_of_visible (h : l.Ready s m) (hmid : Text.lower l.index = "mid" → s = "")
    (hrounds : s.length < rounds) :
    ∃ m', evaluate rounds (depth + 5) (.node l.node) none m = .ok .null m' ∧
      m'.lookup l.target = some (.text s) ∧ m'.lookup l.index = some (.int (s.length + 1)) ∧
      l.Sets m m' := by
  obtain ⟨m₁, hloop, hm₁⟩ := forRounds_counts (counts h.insideLoop hmid rfl)
    (fun _ ↦ h.isWritable) (k := 0) hrounds (Nat.zero_le _) (copying_start h.insideLoop)
  have hall : s.toList.take s.length = s.toList := by
    rw [← s.length_toList, List.take_length]
  refine ⟨{ m₁ with frame := { m₁.frame with loops := m.frame.loops } }, ?_, ?_, hm₁.index,
    hm₁.sets.leaveLoop⟩
  · rw [evaluate_node h, Eval.bind_of_ok hloop,
      Eval.bind_of_ok (popLoop_of_loops (hm₁.sets.loops.trans rfl))]
    rfl
  · have htarget := hm₁.target
    rw [hall, Value.ofChars, String.ofList_toList] at htarget
    exact htarget

/-- An index that is called `Mid` hides the routine, so that the first character is asked of a
number. -/
theorem evaluate_statement_of_hidden (rounds depth : Nat) (h : l.Ready s m)
    (hmid : Text.lower l.index = "mid") (hk : k < s.length) (hm : l.Copying s m k m') :
    evaluate rounds (depth + 4) (.node l.statement) none m' = .error .noMember m' := by
  have houtside := hm.sets.outside.trans h.outside
  have hnumber : m'.lookup "Mid" = some (.int (k + 1)) := by
    have hlower : Text.lower "Mid" = "mid" := Routine.mid.lower_name
    rw [← hm.index, Machine.lookup_eq_lookupKey, hlower, ← hmid, ← Machine.lookup_eq_lookupKey]
  have hcharacter : evalOperand (evaluate rounds (depth + 2)) (.node l.character) m' =
      .error .noMember m' :=
    (evalOperand_node l.isWritable_character m').trans (evaluate_call_of_int houtside hnumber
      (isNotable_routines .mid (by simp)) (gives_arguments h hk hm) (writable_arguments h hk))
  have hoperands : evalOperands (evaluate rounds (depth + 2))
      [.node (.simpleName l.target), .node l.character] m' = .error .noMember m' := by
    rw [evalOperands, Eval.bind_of_ok (gives_name houtside hm.target rfl rfl), evalOperands]
    exact Eval.bind_of_error (Eval.bind_of_error hcharacter _) _
  have hjoined : evalConcatenation (evaluate rounds (depth + 2))
      [.node (.simpleName l.target), .node l.character] m' = .error .noMember m' :=
    Eval.handle_of_error (Eval.bind_of_error hoperands _) _ _
  exact Eval.bind_of_error ((evalOperand_node l.isWritable_joined m').trans hjoined) _

theorem evaluate_node_of_hidden (depth : Nat) (h : l.Ready s m) (hmid : Text.lower l.index = "mid")
    (hs : s ≠ "") (hrounds : s.length < rounds) :
    ∃ m', evaluate rounds (depth + 5) (.node l.node) none m = .error .noMember m' := by
  have hlength : 0 < s.length := by
    rw [← s.length_toList]
    exact List.length_pos_of_ne_nil fun hnil ↦ hs (String.toList_eq_nil_iff.mp hnil)
  obtain ⟨rounds, rfl⟩ := Nat.exists_eq_add_of_le' (Nat.lt_of_le_of_lt (Nat.zero_le _) hrounds)
  have hstart := copying_start h.insideLoop
  have hindex := fetch_of_outside (hstart.sets.outside.trans h.outside) hstart.index
  have hbody := evalBody_of_error l.isWritable_statement
    (evaluate_statement_of_hidden (rounds + 1) depth h.insideLoop hmid hlength hstart) []
  have hfirst : ((0 : Nat) : Int) + 1 ≤ s.length := by omega
  have hloop := forRounds_of_error rounds (.int 1) hindex hfirst
    (h.isWritable (n := 1) hlength) hbody
  exact ⟨_, (evaluate_node h).trans (Eval.bind_of_error hloop _)⟩

/-- The loop copies the whole text and counts one beyond its end, and touches nothing else, exactly
when its index does not hide the routine that it calls, unless there is nothing to copy. If the index
hides it, the loop asks a number for what only a routine has. -/
theorem copies_text_iff (h : l.Ready s m) {rounds depth : Nat} (hrounds : s.length < rounds)
    (hdepth : 5 ≤ depth) :
    ((∃ m', evaluate rounds depth (.node l.node) none m = .ok .null m' ∧
      m'.lookup l.target = some (.text s) ∧ m'.lookup l.index = some (.int (s.length + 1)) ∧
      m'.lookup l.source = some (.text s) ∧ l.Sets m m') ↔
      (Text.lower l.index = "mid" → s = "")) ∧
    (Text.lower l.index = "mid" → s ≠ "" →
      ∃ m', evaluate rounds depth (.node l.node) none m = .error .noMember m') := by
  obtain ⟨depth, rfl⟩ := Nat.exists_eq_add_of_le' hdepth
  have hhidden (hmid : Text.lower l.index = "mid") (hs : s ≠ "") :=
    evaluate_node_of_hidden depth h hmid hs hrounds
  refine ⟨⟨?_, fun hmid ↦ ?_⟩, hhidden⟩
  · rintro ⟨m', hok, -⟩ hmid
    by_contra hs
    obtain ⟨m₁, herror⟩ := hhidden hmid hs
    rw [hok] at herror
    exact nomatch herror
  · obtain ⟨m', hok, htarget, hindex, hsets⟩ := evaluate_node_of_visible h hmid hrounds
    exact ⟨m', hok, htarget, hindex,
      (hsets.others _ h.source_ne_target h.source_ne_index).trans h.source, hsets⟩

/-- A machine with a text to copy, in which there are dots, and an empty target. -/
def holdingAddress : Machine :=
  { frame := { locals := ⟨[("src", .text "http://a.com"), ("dst", .empty)]⟩ } }

theorem lower_own : ∀ name ∈ ["src", "dst", "i"], Text.lower name = name := by
  decide +kernel

theorem ready_holdingAddress {index : String} (hsource : Text.lower "src" ≠ Text.lower index)
    (htarget : Text.lower "dst" ≠ Text.lower index) :
    CopyLoop.Ready ⟨"src", "dst", index⟩ "http://a.com" holdingAddress where
  outside := rfl
  source := by
    rw [Machine.lookup_eq_lookupKey, lower_own "src" (by simp)]
    rfl
  target := by
    rw [Machine.lookup_eq_lookupKey, lower_own "dst" (by simp)]
    rfl
  source_ne_target := by
    change Text.lower "src" ≠ Text.lower "dst"
    simp [lower_own]
  source_ne_index := hsource
  target_ne_index := htarget
  notDocument := by decide
  notBytes := nofun
  visible := by decide +kernel
  bounded := .inr (by decide)
  written := Decimal.isWritable_of_lt (by decide : 2 ≤ Decimal.digitLimit) (by decide)

theorem copies_text_address :
    CopyLoop.Ready ⟨"src", "dst", "i"⟩ "http://a.com" holdingAddress ∧ 12 < roundLimit ∧
      5 ≤ depthLimit ∧
      ∃ m', evaluate roundLimit depthLimit (.node (CopyLoop.node ⟨"src", "dst", "i"⟩)) none
          holdingAddress = .ok .null m' ∧
        m'.lookup "dst" = some (.text "http://a.com") ∧ m'.lookup "i" = some (.int 13) := by
  have hready : CopyLoop.Ready ⟨"src", "dst", "i"⟩ "http://a.com" holdingAddress :=
    ready_holdingAddress (by simp [lower_own]) (by simp [lower_own])
  have hrounds : 12 < roundLimit := by decide
  have hdepth : 5 ≤ depthLimit := by decide
  have hvisible : Text.lower "i" = "mid" → "http://a.com" = "" := by simp [lower_own]
  obtain ⟨m', hok, htarget, hindex, -⟩ := (copies_text_iff hready hrounds hdepth).1.mpr hvisible
  exact ⟨hready, hrounds, hdepth, m', hok, htarget, hindex⟩

/-- With an index that is called as the routine, nothing is copied. -/
theorem index_hides_routine : ¬ ∀ (l : CopyLoop) (s : String) (m : Machine), l.Ready s m →
    s.length < roundLimit →
      ∃ m', run (.node l.node) none m = .ok .null m' ∧ m'.lookup l.target = some (.text s) := by
  intro h
  have hmid : Text.lower "Mid" = "mid" := Routine.mid.lower_name
  have hready : CopyLoop.Ready ⟨"src", "dst", "Mid"⟩ "http://a.com" holdingAddress :=
    ready_holdingAddress (by simp [lower_own, hmid]) (by simp [lower_own, hmid])
  have hrounds : "http://a.com".length < roundLimit := by decide
  obtain ⟨m', hok, -⟩ := h _ _ _ hready hrounds
  obtain ⟨m₁, herror⟩ := evaluate_node_of_hidden (depthLimit - 5) hready hmid (by decide) hrounds
  exact nomatch hok.symm.trans herror

end CopyLoop

end Semantics

end VbaTrace
