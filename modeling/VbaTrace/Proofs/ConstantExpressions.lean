import VbaTrace.Proofs.TextOperands
import VbaTrace.Proofs.WholeNumbers
import VbaTrace.Semantics.Evaluate

/-!
Expressions that mean the same everywhere. An operand gives a value (`Gives`) when its evaluation
ends in that value and leaves the machine as it was. Sums and concatenations of operands that give
texts give the joined text, and sums and differences of operands that give whole numbers give the
number that the operations from left to right arrive at.

An obfuscated text (`Obfuscated`) is put together from characters by their numbers and from pieces
without a dot, joined and reversed to any depth. Its evaluation gives the plain text in every machine:
what a part gives may well have a dot in it, but only texts that stand in the tree itself are looked
up as names.
-/

set_option autoImplicit false

namespace VbaTrace

/-! The order of whole numbers -/

namespace Relation

/-- Whether the relation holds between two whole numbers. -/
def orders : Relation → Int → Int → Bool
  | less, a, b => a < b
  | lessOrEqual, a, b => a ≤ b
  | greater, a, b => b < a
  | greaterOrEqual, a, b => b ≤ a

theorem accepts_compare (r : Relation) (a b : Int) : r.accepts (compare a b) = r.orders a b := by
  rw [Bool.eq_iff_iff]
  cases r with
  | less => simp [accepts, orders, compare_lt_iff_lt]
  | lessOrEqual => simp [accepts, orders, compare_le_iff_le]
  | greater => simp [accepts, orders, compare_gt_iff_gt]
  | greaterOrEqual => simp [accepts, orders, compare_ge_iff_ge]

end Relation

namespace Value

theorem related_ints (r : Relation) (a b : Int) :
    related r (.int a) (.int b) = .ok (r.orders a b) := by
  rw [related, ← r.accepts_compare] <;> simp [isNumber, compareNumbers, asInt?]

theorem equals_ints (a b : Int) : equals (.int a) (.int b) = decide (a = b) := by
  rw [equals] <;> simp [compareNumbers, asInt?, Bool.beq_eq_decide_eq]

end Value

namespace Semantics

section

variable {evaluate : Evaluator} {m : Machine}

/-- The operand gives a value and leaves the machine as it is. -/
def Gives (evaluate : Evaluator) (m : Machine) (v w : Value) : Prop :=
  evalOperand evaluate v m = .ok w m

theorem gives_undotted {s : String} (hs : '.' ∉ s.toList) :
    Gives evaluate m (.text s) (.text s) :=
  (evalText_eq_self_iff evaluate s).mpr hs m

theorem ensureWritable_of_isWritable {v : Value} (hv : (m.heap.resolve v).isWritable = true) :
    ensureWritable v m = .ok () m := by
  change (if (m.heap.resolve v).isWritable then pure () else throw Fault.wrongValue : Eval Unit) m = _
  rw [if_pos hv]
  rfl

theorem ensureWritable_of_not_isWritable {v : Value}
    (hv : (m.heap.resolve v).isWritable = false) :
    ensureWritable v m = .error .wrongValue m := by
  change (if (m.heap.resolve v).isWritable then pure () else throw Fault.wrongValue : Eval Unit) m = _
  rw [hv]
  rfl

theorem isWritable_resolve_int (h : Heap) {n : Int} (hn : Decimal.isWritable n = true) :
    (h.resolve (.int n)).isWritable = true := by
  have hsame : h.resolve (.int n) = .int n := rfl
  rw [hsame, Value.isWritable, hn]

theorem gives_int {n : Int} (hn : Decimal.isWritable n = true) :
    Gives evaluate m (.int n) (.int n) :=
  Eval.bind_of_ok (ensureWritable_of_isWritable (isWritable_resolve_int m.heap hn)) _

theorem ensureWritable_node {n : Node} (hn : n.isWritable = true) (m : Machine) :
    ensureWritable (.node n) m = .ok () m :=
  ensureWritable_of_isWritable (v := .node n) hn

/-- A node that can be written is evaluated. -/
theorem evalOperand_node {n : Node} (hn : n.isWritable = true) (m : Machine) :
    evalOperand evaluate (.node n) m = evaluate (.node n) none m :=
  Eval.bind_of_ok (ensureWritable_node hn m) _

theorem evalOperand_of_not_isWritable {v : Value} (hv : (m.heap.resolve v).isWritable = false) :
    evalOperand evaluate v m = .error .wrongValue m := by
  cases v with
  | text => exact Bool.noConfusion hv
  | _ => exact Eval.bind_of_error (ensureWritable_of_not_isWritable hv) _

theorem evalOperand_node_iff {n : Node} {w : Value} {m' : Machine} :
    evalOperand evaluate (.node n) m = .ok w m' ↔
      n.isWritable = true ∧ evaluate (.node n) none m = .ok w m' := by
  cases hn : n.isWritable with
  | true => rw [evalOperand_node hn, and_iff_right rfl]
  | false =>
    refine ⟨fun h ↦ ?_, fun h ↦ Bool.noConfusion h.1⟩
    rw [evalOperand_of_not_isWritable (v := .node n) hn] at h
    cases h

theorem evalOperands_of_gives {vs ws : List Value}
    (h : List.Forall₂ (Gives evaluate m) vs ws) : evalOperands evaluate vs m = .ok ws m := by
  induction h with
  | nil => rfl
  | cons hv _ ih =>
    rw [evalOperands, Eval.bind_of_ok hv, Eval.bind_of_ok ih]
    rfl

/-- Operands that give values are combined once, in the machine as it was. -/
theorem combine_of_gives {vs ws : List Value} {operation : Value → Value → Except Fault Value}
    {result : Value} (h : List.Forall₂ (Gives evaluate m) vs ws)
    (hfold : Operator.fold operation (ws.map m.heap.opened) = .ok result) :
    combine evaluate operation vs m = .ok result m := by
  rw [combine, Eval.bind_of_ok (evalOperands_of_gives h)]
  change Eval.ofExcept (Operator.fold operation (ws.map m.heap.opened)) m = _
  rw [hfold]
  rfl

/-! Texts -/

theorem map_opened_texts (h : Heap) (texts : List (List Char)) :
    (texts.map Value.ofChars).map h.opened = texts.map Value.ofChars := by
  rw [List.map_map]
  rfl

theorem map_resolve_texts (h : Heap) (texts : List (List Char)) :
    (texts.map Value.ofChars).map h.resolve = texts.map Value.ofChars := by
  rw [List.map_map]
  rfl

theorem fold_add_texts (first : List Char) (more : List (List Char)) :
    Operator.fold Value.add ((first :: more).map Value.ofChars) =
      .ok (.ofChars (first :: more).flatten) := by
  rw [List.map_cons, Operator.fold]
  induction more generalizing first with
  | nil => simp [pure, Except.pure]
  | cons next more ih =>
    have hadd : Value.add (.ofChars first) (.ofChars next) = .ok (.ofChars (first ++ next)) := by
      rw [Value.ofChars, Value.ofChars, Value.add, Value.ofChars, String.ofList_append]
    rw [List.map_cons, List.foldlM_cons, hadd]
    change List.foldlM Value.add (.ofChars (first ++ next)) (more.map Value.ofChars) = _
    rw [ih]
    simp

theorem evalSum_of_texts {vs : List Value} {first : List Char} {more : List (List Char)}
    (h : List.Forall₂ (Gives evaluate m) vs ((first :: more).map Value.ofChars)) :
    evalSum evaluate vs m = .ok (.ofChars (first :: more).flatten) m := by
  have hfold : Operator.fold Value.add (((first :: more).map Value.ofChars).map m.heap.opened) =
      .ok (.ofChars (first :: more).flatten) := by
    rw [map_opened_texts, fold_add_texts]
  exact Eval.handle_of_ok (Eval.handle_of_ok (combine_of_gives h hfold) _ _) _ _

theorem joinAll_texts (texts : List (List Char)) :
    joinAll (texts.map Value.ofChars) = .ok (.ofChars texts.flatten) := by
  have hjoined : (texts.map Value.ofChars).mapM Value.joined = .ok (texts.map String.ofList) := by
    induction texts with
    | nil => rfl
    | cons text texts ih =>
      rw [List.map_cons, List.mapM_cons, ih]
      rfl
  have htext : String.join (texts.map String.ofList) = String.ofList texts.flatten := by
    rw [← String.toList_inj, String.toList_join, String.toList_ofList, List.flatMap_map]
    simp [List.flatMap_id']
  rw [joinAll, hjoined]
  change Except.ok (Value.text (String.join (texts.map String.ofList))) = _
  rw [htext, Value.ofChars]

theorem evalConcatenation_of_texts {vs : List Value} {texts : List (List Char)}
    (h : List.Forall₂ (Gives evaluate m) vs (texts.map Value.ofChars)) :
    evalConcatenation evaluate vs m = .ok (.ofChars texts.flatten) m := by
  refine Eval.handle_of_ok ?_ _ _
  rw [Eval.bind_of_ok (evalOperands_of_gives h)]
  change Eval.ofExcept (joinAll ((texts.map Value.ofChars).map m.heap.resolve)) m = _
  rw [map_resolve_texts, joinAll_texts]
  rfl

theorem evalStrReverse_of_text {v : Value} {cs : List Char}
    (h : Gives evaluate m v (.ofChars cs)) :
    evalStrReverse evaluate v m = .ok (.ofChars cs.reverse) m := by
  rw [evalStrReverse, Eval.bind_of_ok h]
  change EStateM.Result.ok (Value.ofChars (String.ofList cs).toList.reverse) m = _
  rw [String.toList_ofList]

theorem toNat_le_lastCodePoint (c : Char) : (c.toNat : Int) ≤ Value.lastCodePoint := by
  have hvalid := c.valid
  simp only [UInt32.isValidChar, Nat.isValidChar] at hvalid
  have hnat : c.toNat ≤ 0x10FFFF := by
    change c.val.toNat ≤ _
    omega
  exact Int.ofNat_le.mpr hnat

theorem not_isSurrogate_toNat (c : Char) : Value.isSurrogate c.toNat = false := by
  have hvalid := c.valid
  simp only [UInt32.isValidChar, Nat.isValidChar] at hvalid
  rw [Value.isSurrogate, Bool.and_eq_false_iff, decide_eq_false_iff_not, decide_eq_false_iff_not]
  change ¬ (0xD800 : Int) ≤ (c.val.toNat : Int) ∨ ¬ (c.val.toNat : Int) ≤ 0xDFFF
  omega

theorem toNat_lt_pow (c : Char) : c.toNat < Nat.pow 10 7 := by
  have hlast := toNat_le_lastCodePoint c
  unfold Value.lastCodePoint at hlast
  change c.toNat < 10000000
  omega

theorem isWritable_code (c : Char) : Decimal.isWritable (c.toNat : Int) = true :=
  Decimal.isWritable_of_lt (by decide) (toNat_lt_pow c)

theorem isWritable_one : Decimal.isWritable 1 = true :=
  Decimal.isWritable_of_lt (by decide : 1 ≤ Decimal.digitLimit) (by decide)

theorem charOf?_toNat (c : Char) : Value.charOf? c.toNat = some c := by
  have hrange : (0 ≤ (c.toNat : Int) && (c.toNat : Int) ≤ Value.lastCodePoint &&
      !Value.isSurrogate c.toNat) = true := by
    simp only [Bool.and_eq_true, decide_eq_true_eq, Bool.not_eq_true']
    exact ⟨⟨Int.natCast_nonneg _, toNat_le_lastCodePoint c⟩, not_isSurrogate_toNat c⟩
  rw [Value.charOf?, if_pos hrange, Int.toNat_natCast, Char.ofNat_toNat]

theorem charText_toNat (c : Char) : charText c.toNat = .ofChars [c] := by
  rw [charText, charOf?_toNat]
  rfl

theorem evalChr_of_code (c : Char) :
    evalChr evaluate (.int c.toNat) m = .ok (.ofChars [c]) m := by
  rw [evalChr, Eval.bind_of_ok (gives_int (isWritable_code c))]
  change (ensureWritable (.int c.toNat) >>= fun _ ↦ pure (charText c.toNat) : Eval Value) m = _
  have hwritable := isWritable_resolve_int m.heap (isWritable_code c)
  rw [Eval.bind_of_ok (ensureWritable_of_isWritable hwritable), charText_toNat]
  rfl

/-! Whole numbers -/

theorem map_opened_ints (h : Heap) (ns : List Int) :
    (ns.map Value.int).map h.opened = ns.map Value.int := by
  rw [List.map_map]
  rfl

/-- Values of one kind are combined from left to right. -/
theorem fold_map {α : Type} {operation : Value → Value → Except Fault Value} {wrap : α → Value}
    {f : α → α → α} (hoperation : ∀ a b, operation (wrap a) (wrap b) = .ok (wrap (f a b))) (a : α)
    (more : List α) :
    Operator.fold operation ((a :: more).map wrap) = .ok (wrap (more.foldl f a)) := by
  rw [List.map_cons, Operator.fold]
  induction more generalizing a with
  | nil => rfl
  | cons b more ih =>
    rw [List.map_cons, List.foldlM_cons, hoperation, List.foldl_cons, ← ih]
    rfl

theorem evalSum_of_ints {vs : List Value} {n : Int} {ns : List Int}
    (h : List.Forall₂ (Gives evaluate m) vs ((n :: ns).map Value.int)) :
    evalSum evaluate vs m = .ok (.int (ns.foldl (· + ·) n)) m := by
  have hfold : Operator.fold Value.add (((n :: ns).map Value.int).map m.heap.opened) =
      .ok (.int (ns.foldl (· + ·) n)) := by
    rw [map_opened_ints]
    exact fold_map (fun _ _ ↦ rfl) n ns
  exact Eval.handle_of_ok (Eval.handle_of_ok (combine_of_gives h hfold) _ _) _ _

theorem evalDifference_of_ints {vs : List Value} {n : Int} {ns : List Int}
    (h : List.Forall₂ (Gives evaluate m) vs ((n :: ns).map Value.int)) :
    evalDifference evaluate vs m = .ok (.int (ns.foldl (· - ·) n)) m := by
  have hfold : Operator.fold Value.subtract (((n :: ns).map Value.int).map m.heap.opened) =
      .ok (.int (ns.foldl (· - ·) n)) := by
    rw [map_opened_ints]
    exact fold_map (fun _ _ ↦ rfl) n ns
  exact Eval.handle_of_ok (combine_of_gives h hfold) _ _

end

/-! Lists of texts and numbers -/

/-- A whole number or a text. -/
def isScalar : Value → Bool
  | .text _ | .int _ => true
  | _ => false

theorem opened_of_isScalar (h : Heap) {v : Value} (hv : isScalar v = true) : h.opened v = v := by
  cases v with
  | text | int => rfl
  | _ => exact Bool.noConfusion hv

theorem resolve_of_isScalar (h : Heap) {v : Value} (hv : isScalar v = true) : h.resolve v = v := by
  cases v with
  | text | int => rfl
  | _ => exact Bool.noConfusion hv

/-- What gives a number or a text can be written. -/
theorem isWritable_of_evalOperand {evaluate : Evaluator} {v w : Value} {m m' : Machine}
    (h : evalOperand evaluate v m = .ok w m') (hw : isScalar w = true) : v.isWritable = true := by
  cases hv : (m.heap.resolve v).isWritable with
  | false =>
    rw [evalOperand_of_not_isWritable hv] at h
    cases h
  | true =>
    cases v with
    | list | array =>
      cases (Eval.bind_of_ok (ensureWritable_of_isWritable hv) _).symm.trans h
      exact Bool.noConfusion hw
    | _ => exact hv

theorem allWritable_of_gives {evaluate : Evaluator} {m : Machine} {vs : List Value} {ns : List Int}
    (h : List.Forall₂ (Gives evaluate m) vs (ns.map Value.int)) : allWritable vs = true := by
  induction vs generalizing ns with
  | nil => rfl
  | cons v vs ih =>
    cases ns with
    | nil => cases h
    | cons n ns =>
      obtain ⟨hv, hvs⟩ := List.forall₂_cons.mp h
      rw [allWritable, isWritable_of_evalOperand hv rfl, ih hvs]
      rfl

/-- A number that has a base-ten text, or a text. -/
def isWritableScalar : Value → Bool
  | .text _ => true
  | .int n => Decimal.isWritable n
  | _ => false

theorem isWritableScalar_iff {v : Value} :
    isWritableScalar v = true ↔ isScalar v = true ∧ v.isWritable = true := by
  cases v with
  | text | int => exact ⟨fun h ↦ ⟨rfl, h⟩, fun h ↦ h.2⟩
  | _ => exact ⟨fun h ↦ Bool.noConfusion h, fun h ↦ Bool.noConfusion h.1⟩

theorem allWritable_map_resolveTo (h : Heap) {vs : List Value}
    (hvs : vs.all isWritableScalar = true) (depth : Nat) :
    allWritable (vs.map (h.resolveTo depth)) = true := by
  have hitem (v : Value) (hv : isWritableScalar v = true) :
      (h.resolveTo depth v).isWritable = true := by
    cases v with
    | text s => cases depth <;> rfl
    | int n => cases depth <;> exact hv
    | _ => exact Bool.noConfusion hv
  rw [allWritable_iff, List.forall_mem_map]
  exact fun v hv ↦ hitem v (List.all_eq_true.mp hvs v hv)

theorem isWritable_resolve_list (h : Heap) {vs : List Value}
    (hvs : vs.all isWritableScalar = true) : (h.resolve (.list vs)).isWritable = true :=
  allWritable_map_resolveTo h hvs _

theorem isWritable_resolve_array (h : Heap) {cell : Nat}
    (hcell : (h.read cell).all isWritableScalar = true) :
    (h.resolve (.array cell)).isWritable = true :=
  allWritable_map_resolveTo h hcell _

/-! Obfuscated texts -/

/-- A text in disguise: pieces without a dot and characters given by their numbers, joined by either
sign and reversed, in any nesting. -/
inductive Obfuscated
  | literal (s : String) (undotted : '.' ∉ s.toList)
  | character (c : Char)
  | sum (first second : Obfuscated) (more : List Obfuscated)
  | concatenation (first second : Obfuscated) (more : List Obfuscated)
  | reversal (inner : Obfuscated)

namespace Obfuscated

mutual

/-- The expression of an obfuscated text. -/
def expression : Obfuscated → Value
  | literal s _ => .text s
  | character c => .node (.chr (.int c.toNat))
  | sum first second more =>
    .node (.operation .add (first.expression :: second.expression :: expressions more))
  | concatenation first second more =>
    .node (.operation .concatenate (first.expression :: second.expression :: expressions more))
  | reversal inner => .node (.strReverse inner.expression)

def expressions : List Obfuscated → List Value
  | [] => []
  | t :: ts => t.expression :: expressions ts

end

mutual

/-- The text that is meant. -/
def plain : Obfuscated → List Char
  | literal s _ => s.toList
  | character c => [c]
  | sum first second more | concatenation first second more =>
    (first.plain :: second.plain :: plains more).flatten
  | reversal inner => inner.plain.reverse

def plains : List Obfuscated → List (List Char)
  | [] => []
  | t :: ts => t.plain :: plains ts

end

mutual

/-- How many nodes stand above one another. -/
def height : Obfuscated → Nat
  | literal _ _ => 0
  | character _ => 1
  | sum first second more | concatenation first second more =>
    max first.height (max second.height (heights more)) + 1
  | reversal inner => inner.height + 1

def heights : List Obfuscated → Nat
  | [] => 0
  | t :: ts => max t.height (heights ts)

end

mutual

theorem isWritable_expression (t : Obfuscated) : t.expression.isWritable = true := by
  cases t with
  | literal => rfl
  | character c =>
    rw [expression, Value.isWritable, Node.isWritable, Value.isWritable]
    exact isWritable_code c
  | sum first second more | concatenation first second more =>
    rw [expression, Value.isWritable, Node.isWritable, allWritable, allWritable,
      isWritable_expression first, isWritable_expression second, allWritable_expressions more]
    rfl
  | reversal inner =>
    rw [expression, Value.isWritable, Node.isWritable]
    exact isWritable_expression inner

theorem allWritable_expressions (ts : List Obfuscated) : allWritable (expressions ts) = true := by
  cases ts with
  | nil => rfl
  | cons t ts =>
    rw [expressions, allWritable, isWritable_expression t, allWritable_expressions ts]
    rfl

end

variable (rounds : Nat) (m : Machine)

mutual

/-- By recursion over the tree: a node is evaluated one step less deep than what holds it, and the
values of its parts are combined as they are. -/
theorem gives_plain (t : Obfuscated) {depth : Nat} (hdepth : t.height ≤ depth) :
    Gives (evaluate rounds depth) m t.expression (.ofChars t.plain) := by
  cases t with
  | literal s undotted =>
    rw [expression, plain, Value.ofChars, String.ofList_toList]
    exact gives_undotted undotted
  | character c =>
    obtain ⟨inner, rfl⟩ := Nat.exists_eq_succ_of_ne_zero (Nat.ne_zero_of_lt hdepth)
    exact (evalOperand_node (isWritable_expression (character c)) m).trans (evalChr_of_code c)
  | sum first second more =>
    rw [height] at hdepth
    obtain ⟨inner, rfl⟩ := Nat.exists_eq_succ_of_ne_zero (Nat.ne_zero_of_lt hdepth)
    have hfirst := gives_plain first (by omega : first.height ≤ inner)
    have hsecond := gives_plain second (by omega : second.height ≤ inner)
    have hmore := gives_plains more (by omega : heights more ≤ inner)
    exact (evalOperand_node (isWritable_expression (sum first second more)) m).trans
      (evalSum_of_texts (.cons hfirst (.cons hsecond hmore)))
  | concatenation first second more =>
    rw [height] at hdepth
    obtain ⟨inner, rfl⟩ := Nat.exists_eq_succ_of_ne_zero (Nat.ne_zero_of_lt hdepth)
    have hfirst := gives_plain first (by omega : first.height ≤ inner)
    have hsecond := gives_plain second (by omega : second.height ≤ inner)
    have hmore := gives_plains more (by omega : heights more ≤ inner)
    have htexts : List.Forall₂ (Gives (evaluate rounds inner) m)
        (first.expression :: second.expression :: expressions more)
        ((first.plain :: second.plain :: plains more).map Value.ofChars) :=
      .cons hfirst (.cons hsecond hmore)
    exact (evalOperand_node (isWritable_expression (concatenation first second more)) m).trans
      (evalConcatenation_of_texts htexts)
  | reversal inner =>
    rw [height] at hdepth
    obtain ⟨depth, rfl⟩ := Nat.exists_eq_succ_of_ne_zero (Nat.ne_zero_of_lt hdepth)
    exact (evalOperand_node (isWritable_expression (reversal inner)) m).trans
      (evalStrReverse_of_text (gives_plain inner (by omega : inner.height ≤ depth)))

theorem gives_plains (ts : List Obfuscated) {depth : Nat} (hdepth : heights ts ≤ depth) :
    List.Forall₂ (Gives (evaluate rounds depth) m) (expressions ts)
      ((plains ts).map Value.ofChars) := by
  cases ts with
  | nil => exact .nil
  | cons t ts =>
    rw [heights] at hdepth
    exact .cons (gives_plain t (by omega)) (gives_plains ts (by omega))

end

/-- The evaluation of an obfuscated text gives the plain text in every machine, and changes nothing
in it. -/
theorem evaluation_reveals_plain (t : Obfuscated) (rounds extra : Nat) (m : Machine) :
    evalOperand (evaluate rounds (t.height + extra)) t.expression m =
      .ok (.text (String.ofList t.plain)) m :=
  gives_plain rounds m t (Nat.le_add_right t.height extra)

end Obfuscated

end Semantics

end VbaTrace
