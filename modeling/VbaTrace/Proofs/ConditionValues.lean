import Mathlib.Data.List.Forall2
import VbaTrace.Proofs.Conditions
import VbaTrace.Proofs.ConstantExpressions

/-!
What conditions on whole numbers give. Only the outermost connective of a formula is evaluated as one.
An operand that has connectives of its own is a list of tokens (`Conjunction.isShown`), which stands for
itself and counts as true. So a formula shows the truth value that it has if all such operands are
taken to be true (`Disjunction.apparent`).

This is the truth value of the formula itself when there is only one kind of connective, and no negation
is negated (`isFlat`); for other formulas, it depends on the numbers. Flat shapes are exactly those of
which all formulas show what they mean (`Disjunction.condition_gives_apparent`).
-/

set_option autoImplicit false

namespace VbaTrace

namespace Semantics

/-- The operand gives a value that counts as true or false, and leaves the machine as it is. -/
def Shows (evaluate : Evaluator) (m : Machine) (v : Value) (b : Bool) : Prop :=
  ∃ w, Gives evaluate m v w ∧ truth w m = .ok b m

theorem Shows.exists_evaluate {evaluate : Evaluator} {m : Machine} {n : Node} {b : Bool}
    (h : Shows evaluate m (.node n) b) :
    ∃ w, evaluate (.node n) none m = .ok w m ∧ (m.heap.opened w).truthy = b := by
  obtain ⟨w, hw, htruth⟩ := h
  have hok : EStateM.Result.ok (m.heap.opened w).truthy m = .ok b m := htruth
  exact ⟨w, (evalOperand_node_iff.mp hw).2, (EStateM.Result.ok.inj hok).1⟩

section

variable {evaluate : Evaluator} {m : Machine}

theorem evalSide_of_gives {v w : Value} (h : Gives evaluate m v w) :
    evalSide evaluate v m = .ok ⟨w, readsName v⟩ m := by
  refine Eval.handle_of_ok ?_ _ _
  rw [Eval.bind_of_ok h]
  rfl

/-- A list of tokens stands for itself, and counts as true unless it is empty. -/
theorem shows_tokens {items : List Value} (hne : items ≠ []) (hwritable : allWritable items = true) :
    Shows evaluate m (.tokens (.ofList items)) true := by
  refine ⟨.tokens (.ofList items), ?_, ?_⟩
  · have hresolved : (m.heap.resolve (.tokens (.ofList items))).isWritable = true := by
      change Value.isWritable (.tokens (.mk items [])) = true
      rw [Value.isWritable, hwritable]
    exact Eval.bind_of_ok (ensureWritable_of_isWritable hresolved) _
  · have hitems : (!items.isEmpty) = true := by simpa using hne
    exact congrArg (EStateM.Result.ok · m) hitems

theorem compareSides_of_ints (h : Heap) (sign : Grammar.ComparisonSign) (a b : Int)
    (aheld bheld : Bool) :
    compareSides h (String.ofList sign.text) ⟨.int a, aheld⟩ ⟨.int b, bheld⟩ =
      .ok (sign.holds a b) := by
  cases sign with
  | equal => exact congrArg Except.ok (Value.equals_ints a b)
  | unequal =>
    have hequals := congrArg Bool.not (Value.equals_ints a b)
    rw [← decide_not] at hequals
    exact congrArg Except.ok hequals
  | less => exact Value.related_ints .less a b
  | lessOrEqual => exact Value.related_ints .lessOrEqual a b
  | greater => exact Value.related_ints .greater a b
  | greaterOrEqual => exact Value.related_ints .greaterOrEqual a b

theorem shows_comparison {sign : Grammar.ComparisonSign} {lhs rhs : Value} {a b : Int}
    {rounds depth : Nat}
    (hn : (Node.comparison lhs (.text (String.ofList sign.text)) rhs).isWritable = true)
    (hlhs : Gives (Semantics.evaluate rounds depth) m lhs (.int a))
    (hrhs : Gives (Semantics.evaluate rounds depth) m rhs (.int b)) :
    Shows (Semantics.evaluate rounds (depth + 1)) m
      (.node (.comparison lhs (.text (String.ofList sign.text)) rhs)) (sign.holds a b) := by
  refine ⟨.bool (sign.holds a b), evalOperand_node_iff.mpr ⟨hn, ?_⟩, rfl⟩
  change evalComparison (Semantics.evaluate rounds depth) lhs (.text (String.ofList sign.text)) rhs m
    = _
  rw [evalComparison, Eval.bind_of_ok (evalSide_of_gives hlhs)]
  change (evalSide (Semantics.evaluate rounds depth) rhs >>= _ : Eval Value) m = _
  rw [Eval.bind_of_ok (evalSide_of_gives hrhs)]
  change (Eval.ofExcept (compareSides m.heap (String.ofList sign.text) _ _) >>= _ : Eval Value) m = _
  rw [compareSides_of_ints]
  rfl

theorem shows_tree (c : Grammar.Comparison) (rounds depth : Nat) :
    Shows (Semantics.evaluate rounds (depth + 1)) m c.tree c.holds :=
  shows_comparison c.isWritable_tree (gives_int c.lhs_writable) (gives_int c.rhs_writable)

/-- A negation shows the opposite of its operand. -/
theorem shows_negation {v : Value} {b : Bool} {rounds depth : Nat} (hv : v.isWritable = true)
    (h : Shows (Semantics.evaluate rounds depth) m v b) :
    Shows (Semantics.evaluate rounds (depth + 1)) m
      (.node (.condition .null (.text (String.ofList Grammar.notWord)) v)) !b := by
  obtain ⟨w, hw, htruth⟩ := h
  have hwritable : (Node.condition .null (.text (String.ofList Grammar.notWord)) v).isWritable =
      true := by
    rw [Node.isWritable, hv]
    rfl
  refine ⟨.bool !b, evalOperand_node_iff.mpr ⟨hwritable, ?_⟩, rfl⟩
  change evalNegation (Semantics.evaluate rounds depth) (.text (String.ofList Grammar.notWord)) v m = _
  have hfound : Eval.handle (do return some (← evalOperand (Semantics.evaluate rounds depth) v))
      Eval.anyFault (fun _ ↦ return none) m = .ok (some w) m := by
    refine Eval.handle_of_ok ?_ _ _
    rw [Eval.bind_of_ok hw]
    rfl
  rw [evalNegation, Eval.bind_of_ok hfound]
  change (truth w >>= fun t ↦ pure (.bool !t) : Eval Value) m = _
  rw [Eval.bind_of_ok htruth]
  rfl

/-- A single operand is shown as it is. -/
theorem shows_single {v : Value} {b : Bool} {rounds depth : Nat} (hnull : v.isNull = false)
    (hv : v.isWritable = true) (h : Shows (Semantics.evaluate rounds depth) m v b) :
    Shows (Semantics.evaluate rounds (depth + 1)) m (.node (.condition v .null .null)) b := by
  obtain ⟨w, hw, htruth⟩ := h
  have hwritable : (Node.condition v .null .null).isWritable = true := by
    rw [Node.isWritable, hv]
    rfl
  refine ⟨w, evalOperand_node_iff.mpr ⟨hwritable, ?_⟩, htruth⟩
  change evalCondition (Semantics.evaluate rounds depth) v .null .null m = _
  rw [evalCondition, hnull, if_neg Bool.false_ne_true, Eval.bind_of_ok (evalSide_of_gives hw)]
  rfl

/-- The connective joins what its operands show. -/
def Joins (word : List Char) (f : Bool → Bool → Bool) : Prop :=
  ∀ {evaluate : Evaluator} {m : Machine} {v w : Value} {a b : Bool}, v.isNull = false →
    Shows evaluate m v a → Shows evaluate m w b →
      ∃ u, evalCondition evaluate v (.text (String.ofList word)) w m = .ok u m ∧
        truth u m = .ok (f a b) m

/-- Both operands are evaluated, and one of them is the result. -/
theorem evalCondition_of_gives {v w x y : Value} {a : Bool} (hnull : v.isNull = false)
    (hx : Gives evaluate m v x) (hy : Gives evaluate m w y) (htruth : truth x m = .ok a m) :
    evalCondition evaluate v (.text (String.ofList Grammar.andWord)) w m =
        .ok (if a then y else x) m ∧
      evalCondition evaluate v (.text (String.ofList Grammar.orWord)) w m =
        .ok (if a then x else y) m := by
  simp only [evalCondition, hnull, Bool.false_eq_true, if_false,
    Eval.bind_of_ok (evalSide_of_gives hx)]
  have hright {f : Side → Eval Value} : (evalSide evaluate w >>= f) m = f ⟨y, readsName w⟩ m :=
    Eval.bind_of_ok (evalSide_of_gives hy) f
  constructor
  · exact hright.trans (Eval.bind_of_ok htruth fun t ↦ pure (if t then y else x))
  · exact hright.trans (Eval.bind_of_ok htruth fun t ↦ pure (if t then x else y))

theorem joins_and : Joins Grammar.andWord (· && ·) := by
  rintro evaluate m v w a b hnull ⟨x, hx, hxtruth⟩ ⟨y, hy, hytruth⟩
  refine ⟨_, (evalCondition_of_gives hnull hx hy hxtruth).1, ?_⟩
  cases a with
  | true => exact hytruth
  | false => exact hxtruth

theorem joins_or : Joins Grammar.orWord (· || ·) := by
  rintro evaluate m v w a b hnull ⟨x, hx, hxtruth⟩ ⟨y, hy, hytruth⟩
  refine ⟨_, (evalCondition_of_gives hnull hx hy hxtruth).2, ?_⟩
  cases a with
  | true => exact hxtruth
  | false => exact hytruth

/-- What a tree shows as an operand. -/
structure IsShown (rounds : Nat) (m : Machine) (v : Value) (b : Bool) : Prop where
  not_null : v.isNull = false
  writable : v.isWritable = true
  shows : ∀ depth, Shows (Semantics.evaluate rounds (depth + 1)) m v b

/-- The operands of a run are joined from the right, one step deeper each. -/
theorem shows_conditionOf {word : List Char} {f : Bool → Bool → Bool} {e : Bool}
    (hjoins : Joins word f) (hunit : ∀ b, f b e = b) {rounds : Nat} {v : Value} {vs : List Value}
    {b : Bool} {bs : List Bool} (h : List.Forall₂ (IsShown rounds m) (v :: vs) (b :: bs))
    (depth : Nat) :
    Shows (Semantics.evaluate rounds (vs.length + depth + 2)) m
      (.node (Grammar.conditionOf (v :: Grammar.alternating (String.ofList word) vs)))
      ((b :: bs).foldr f e) := by
  induction vs generalizing v b bs with
  | nil =>
    obtain ⟨hv, hvs⟩ := List.forall₂_cons.mp h
    cases hvs
    rw [List.foldr_cons, List.foldr_nil, hunit]
    exact shows_single hv.not_null hv.writable (hv.shows _)
  | cons w ws ih =>
    obtain ⟨hv, hvs⟩ := List.forall₂_cons.mp h
    cases hvs with
    | cons hw hws =>
      have hrest := ih (.cons hw hws)
      have hshown : Shows (Semantics.evaluate rounds (ws.length + depth + 2)) m v b :=
        hv.shows (ws.length + depth + 1)
      obtain ⟨u, hu, htruth⟩ := hjoins hv.not_null hshown hrest
      obtain ⟨tail, htail, -⟩ := hrest
      have hwritable : (Grammar.conditionOf
          (v :: Grammar.alternating (String.ofList word) (w :: ws))).isWritable = true := by
        have hlater := (evalOperand_node_iff.mp htail).1
        rw [Grammar.alternating, List.flatMap_cons]
        change (Node.condition v _ (.node _)).isWritable = true
        rw [Node.isWritable, hv.writable, Value.isWritable]
        exact hlater
      have hdepth : (w :: ws).length + depth + 2 = ws.length + depth + 2 + 1 := by
        rw [List.length_cons]
        omega
      rw [hdepth]
      exact ⟨u, evalOperand_node_iff.mpr ⟨hwritable, hu⟩, htruth⟩

/-- A list of tokens is shown as true, whatever it stands for. -/
theorem isShown_tokens {rounds : Nat} {items : List Value} (hne : items ≠ [])
    (h : ∀ v ∈ items, v.isWritable = true) :
    IsShown rounds m (.tokens (.ofList items)) true := by
  have hwritable := allWritable_iff.mpr h
  refine ⟨rfl, ?_, fun _ ↦ shows_tokens hne hwritable⟩
  rwa [Tokens.ofList, Value.isWritable]

end

end Semantics

namespace Grammar

open Semantics

/-! What operands show -/

section

variable (rounds : Nat) (m : Machine)

namespace Negation

/-- What a negation shows as an operand: it counts as true, since it is a list of tokens. -/
def shown : Negation → Bool
  | bare c => c.holds
  | not .. => true

theorem isShown (n : Negation) : IsShown rounds m n.tree n.shown := by
  cases n with
  | bare c => exact ⟨rfl, c.isWritable_tree, shows_tree c rounds⟩
  | not spelling behind spelling_mem inner =>
    refine isShown_tokens (List.cons_ne_nil _ _) ?_
    simp [isWritable_tree, Value.isWritable]

end Negation

/-- What a chain amounts to: one thing for an operand alone, another for several. -/
def WordChain.elim {word : List Char} {α β : Type} (alone : α → β) (joined : List α → β)
    (chain : WordChain word α) : β :=
  match chain.links with
  | [] => alone chain.first
  | _ :: _ => joined chain.operands

/-- A chain with links that is itself an operand is shown as true. -/
theorem WordChain.isShown_of_links {word : List Char} {α : Type} {tree : α → Value}
    {chain : WordChain word α} (hlinks : chain.links ≠ []) (h : ∀ a, (tree a).isWritable = true) :
    IsShown rounds m (chain.treeWith tree) true := by
  obtain ⟨first, links⟩ := chain
  obtain ⟨link, links, rfl⟩ := List.exists_cons_of_ne_nil hlinks
  have hmore : allWritable (alternating (String.ofList word)
      ((link :: links).map fun link ↦ tree link.operand)) = true :=
    allWritable_alternating (List.forall_mem_map.mpr fun link _ ↦ h link.operand)
  exact isShown_tokens (List.cons_ne_nil _ _)
    (List.forall_mem_cons.mpr ⟨h first, allWritable_iff.mp hmore⟩)

namespace Conjunction

/-- What a conjunction shows as an operand. -/
def shown (c : Conjunction) : Bool := c.elim Negation.shown fun _ ↦ true

theorem isShown (c : Conjunction) : IsShown rounds m c.tree c.shown := by
  obtain ⟨first, links⟩ := c
  cases links with
  | nil => exact first.isShown rounds m
  | cons link links =>
    exact WordChain.isShown_of_links rounds m (List.cons_ne_nil _ _) Negation.isWritable_tree

end Conjunction

/-- At the outside, a chain shows what the connective makes of what its operands show. -/
theorem WordChain.shows_conditionFrom {word : List Char} {α : Type} {tree : α → Value}
    {shown apparent : α → Bool} {f : Bool → Bool → Bool} {e : Bool} (hjoins : Joins word f)
    (hunit : ∀ b, f b e = b) (hshown : ∀ a, IsShown rounds m (tree a) (shown a))
    (chain : WordChain word α) {depth : Nat} (hdepth : chain.links.length + 2 ≤ depth)
    (halone : Shows (evaluate rounds depth) m (.node (conditionFrom (tree chain.first)))
      (apparent chain.first)) :
    Shows (evaluate rounds depth) m (.node (conditionFrom (chain.treeWith tree)))
      (chain.elim apparent fun as ↦ as.foldr (fun a b ↦ f (shown a) b) e) := by
  obtain ⟨first, links⟩ := chain
  cases links with
  | nil => exact halone
  | cons link links =>
    obtain ⟨deeper, rfl⟩ := Nat.exists_eq_add_of_le' hdepth
    have hall : List.Forall₂ (IsShown rounds m)
        (tree first :: (link :: links).map fun link ↦ tree link.operand)
        (shown first :: (link :: links).map fun link ↦ shown link.operand) := by
      refine .cons (hshown first) ?_
      rw [List.forall₂_map_left_iff, List.forall₂_map_right_iff, List.forall₂_same]
      exact fun link _ ↦ hshown link.operand
    have hshows := shows_conditionOf hjoins hunit hall deeper
    have htruth : (shown first :: (link :: links).map fun link ↦ shown link.operand).foldr f e =
        (operands ⟨first, link :: links⟩).foldr (fun a b ↦ f (shown a) b) e := by
      simp [operands, List.foldr_map]
    rw [List.length_map, Nat.add_comm _ deeper, Nat.add_assoc, htruth] at hshows
    exact hshows

namespace Negation

/-- What a negation shows at the outside. -/
def apparent : Negation → Bool
  | bare c => c.holds
  | not _ _ _ inner => !inner.shown

theorem shows_conditionFrom (n : Negation) {depth : Nat} (hdepth : 2 ≤ depth) :
    Shows (evaluate rounds depth) m (.node (conditionFrom n.tree)) n.apparent := by
  obtain ⟨deeper, rfl⟩ := Nat.exists_eq_add_of_le' hdepth
  cases n with
  | bare c => exact shows_single rfl c.isWritable_tree (shows_tree c rounds deeper)
  | not spelling behind spelling_mem inner =>
    exact shows_negation inner.isWritable_tree ((inner.isShown rounds m).shows deeper)

end Negation

namespace Conjunction

/-- What a conjunction shows at the outside. -/
def apparent (c : Conjunction) : Bool := c.elim Negation.apparent (List.all · Negation.shown)

theorem shows_conditionFrom (c : Conjunction) {depth : Nat} (hdepth : c.links.length + 2 ≤ depth) :
    Shows (evaluate rounds depth) m (.node (conditionFrom c.tree)) c.apparent := by
  have halone := c.first.shows_conditionFrom rounds m (Nat.le_of_add_left_le hdepth)
  have hshows := WordChain.shows_conditionFrom rounds m joins_and Bool.and_true
    (Negation.isShown rounds m) c hdepth halone
  have hall (ns : List Negation) : ns.foldr (fun n b ↦ n.shown && b) true = ns.all Negation.shown := by
    induction ns with
    | nil => rfl
    | cons n ns ih => rw [List.foldr_cons, ih, List.all_cons]
  simp only [hall] at hshows
  exact hshows

end Conjunction

namespace Disjunction

/-- What a disjunction shows. -/
def apparent (d : Disjunction) : Bool := d.elim Conjunction.apparent (List.any · Conjunction.shown)

theorem shows_conditionFrom (d : Disjunction) {depth : Nat}
    (hdepth : d.first.links.length + d.links.length + 2 ≤ depth) :
    Shows (evaluate rounds depth) m (.node (conditionFrom d.tree)) d.apparent := by
  have halone := d.first.shows_conditionFrom rounds m (by omega : d.first.links.length + 2 ≤ depth)
  have hshows := WordChain.shows_conditionFrom rounds m joins_or Bool.or_false
    (Conjunction.isShown rounds m) d (by omega) halone
  have hany (cs : List Conjunction) :
      cs.foldr (fun c b ↦ c.shown || b) false = cs.any Conjunction.shown := by
    induction cs with
    | nil => rfl
    | cons c cs ih => rw [List.foldr_cons, ih, List.any_cons]
  simp only [hany] at hshows
  exact hshows

end Disjunction

end

/-! When they show what they mean -/

namespace WordChain

variable {word : List Char} {α β : Type}

def map (f : α → β) (chain : WordChain word α) : WordChain word β where
  first := f chain.first
  links := chain.links.map fun link ↦
    ⟨link.spelling, link.before, link.behind, f link.operand, link.spelling_mem⟩

@[simp] theorem operands_map (f : α → β) (chain : WordChain word α) :
    (chain.map f).operands = chain.operands.map f := by
  simp [operands, map]

end WordChain

namespace Comparison

/-- A comparison of two numbers in base ten, with one space on each side of the sign. -/
def ofNats (a : Nat) (sign : ComparisonSign) (b : Nat)
    (ha : (Nat.toDigits 10 a).length ≤ Decimal.digitLimit)
    (hb : (Nat.toDigits 10 b).length ≤ Decimal.digitLimit) : Comparison :=
  ⟨.ofNat a ha, sign, .ofNat b hb, 0, 0, IntegerLiteral.isWritable_value rfl,
    IntegerLiteral.isWritable_value rfl⟩

/-- A comparison that holds or does not hold, as one likes. -/
def sample (b : Bool) : Comparison :=
  ofNats 0 (if b then .equal else .unequal) 0 (by decide) (by decide)

theorem holds_sample (b : Bool) : (sample b).holds = b := by
  cases b <;> decide

end Comparison

namespace Negation

/-- The number of negations. -/
def nots : Negation → Nat
  | bare _ => 0
  | not _ _ _ inner => inner.nots + 1

theorem shown_eq_holds {n : Negation} (h : n.nots = 0) : n.shown = n.holds := by
  cases n with
  | bare c => rfl
  | not => exact nomatch h

theorem shown_of_nots {n : Negation} (h : n.nots ≠ 0) : n.shown = true := by
  cases n with
  | bare c => exact absurd rfl h
  | not => rfl

theorem apparent_eq_holds {n : Negation} (h : n.nots ≤ 1) : n.apparent = n.holds := by
  cases n with
  | bare c => rfl
  | not spelling behind spelling_mem inner =>
    rw [apparent, holds, shown_eq_holds (Nat.le_zero.mp (Nat.le_of_succ_le_succ h))]

theorem apparent_of_nots {n : Negation} (h : ¬n.nots ≤ 1) : n.apparent = false := by
  cases n with
  | bare c => exact absurd (Nat.zero_le 1) h
  | not spelling behind spelling_mem inner =>
    rw [apparent, shown_of_nots fun hinner ↦ h (Nat.succ_le_succ (Nat.le_of_eq hinner)),
      Bool.not_true]

/-- The same negations of another comparison, so that they hold or not, as one likes. -/
def withTruth (b : Bool) : Negation → Negation
  | bare _ => bare (.sample b)
  | not spelling behind spelling_mem inner =>
    not spelling behind spelling_mem (inner.withTruth !b)

@[simp] theorem nots_withTruth (b : Bool) (n : Negation) : (n.withTruth b).nots = n.nots := by
  induction n generalizing b with
  | bare c => rfl
  | not spelling behind spelling_mem inner ih => rw [withTruth, nots, nots, ih]

@[simp] theorem holds_withTruth (b : Bool) (n : Negation) : (n.withTruth b).holds = b := by
  induction n generalizing b with
  | bare c => exact Comparison.holds_sample b
  | not spelling behind spelling_mem inner ih => rw [withTruth, holds, ih, Bool.not_not]

end Negation

namespace Conjunction

/-- The numbers of negations before the comparisons. -/
def shape (c : Conjunction) : List Nat := c.operands.map Negation.nots

theorem shown_eq_holds {c : Conjunction} (h : c.shape = [0]) : c.shown = c.holds := by
  obtain ⟨first, links⟩ := c
  obtain ⟨hfirst, hlinks⟩ := List.cons.inj h
  obtain rfl : links = [] := by simpa using hlinks
  exact (Negation.shown_eq_holds hfirst).trans (Bool.and_true _).symm

theorem shown_of_shape {c : Conjunction} (h : c.shape ≠ [0]) : c.shown = true := by
  obtain ⟨first, links⟩ := c
  cases links with
  | nil => exact Negation.shown_of_nots fun hfirst ↦ h (congrArg ([·]) hfirst)
  | cons link links => rfl

theorem shape_map {f : Negation → Negation} (hf : ∀ n, (f n).nots = n.nots) (c : Conjunction) :
    shape (c.map f) = c.shape := by
  simp [shape, Function.comp_def, hf]

/-- The conjunction with other comparisons, such that no operand holds. -/
def falsified (c : Conjunction) : Conjunction := c.map (Negation.withTruth false)

theorem shape_falsified (c : Conjunction) : c.falsified.shape = c.shape :=
  c.shape_map (Negation.nots_withTruth false)

theorem holds_falsified (c : Conjunction) : c.falsified.holds = false := by
  rw [holds, falsified, WordChain.operands_map, List.all_map, List.all_eq_false]
  exact ⟨c.first, List.mem_cons_self, by simp⟩

/-- The conjunction with other comparisons, such that all operands hold but those with negations. -/
def misleading (c : Conjunction) : Conjunction := c.map fun n ↦ n.withTruth (n.nots == 0)

theorem shape_misleading (c : Conjunction) : c.misleading.shape = c.shape :=
  c.shape_map fun n ↦ n.nots_withTruth _

theorem holds_misleading {c : Conjunction} {n : Negation} (hn : n ∈ c.operands) (h : n.nots ≠ 0) :
    c.misleading.holds = false := by
  rw [holds, misleading, WordChain.operands_map, List.all_map, List.all_eq_false]
  exact ⟨n, hn, by simp [h]⟩

/-- All its operands are shown as true. -/
theorem all_shown_misleading (c : Conjunction) :
    c.misleading.operands.all Negation.shown = true := by
  rw [misleading, WordChain.operands_map, List.all_map, List.all_eq_true]
  intro n _
  change (n.withTruth (n.nots == 0)).shown = true
  by_cases hnots : n.nots = 0
  · rw [Negation.shown_eq_holds (by rw [n.nots_withTruth, hnots]), n.holds_withTruth, hnots]
    rfl
  · exact Negation.shown_of_nots (by rwa [n.nots_withTruth])

end Conjunction

/-- In formulas of this shape there is only one kind of connective, and no negation is negated. -/
def isFlat : List (List Nat) → Bool
  | [ns] =>
    match ns with
    | [n] => n ≤ 1
    | ns => ns.all (· == 0)
  | nss => nss.all (· == [0])

namespace Disjunction

def shape (d : Disjunction) : List (List Nat) := d.operands.map Conjunction.shape

theorem isFlat_shape_of_alone {c : Conjunction} (h : c.links ≠ []) :
    isFlat (shape ⟨c, []⟩) = c.operands.all fun n ↦ n.nots == 0 := by
  obtain ⟨first, links⟩ := c
  obtain ⟨link, links, rfl⟩ := List.exists_cons_of_ne_nil h
  change (Conjunction.shape ⟨first, link :: links⟩).all (· == 0) = _
  rw [Conjunction.shape, List.all_map]
  rfl

theorem isFlat_shape_of_links {d : Disjunction} (h : d.links ≠ []) :
    isFlat d.shape = d.operands.all fun c ↦ c.shape == [0] := by
  obtain ⟨first, links⟩ := d
  obtain ⟨link, links, rfl⟩ := List.exists_cons_of_ne_nil h
  change (shape ⟨first, link :: links⟩).all (· == [0]) = _
  rw [shape, List.all_map]
  rfl

/-- A flat formula shows what it means: none of its operands is a list of tokens. -/
theorem apparent_eq_holds {d : Disjunction} (h : isFlat d.shape = true) : d.apparent = d.holds := by
  obtain ⟨⟨n, conjuncts⟩, disjuncts⟩ := d
  rcases disjuncts with - | ⟨link, disjuncts⟩
  · refine Eq.trans ?_ (Bool.or_false _).symm
    rcases conjuncts with - | ⟨link, conjuncts⟩
    · have hnots : n.nots ≤ 1 := of_decide_eq_true h
      exact (Negation.apparent_eq_holds hnots).trans (Bool.and_true _).symm
    · rw [isFlat_shape_of_alone (List.cons_ne_nil _ _), List.all_eq_true] at h
      refine Bool.eq_iff_iff.mpr ?_
      change List.all _ _ = true ↔ List.all _ _ = true
      rw [List.all_eq_true, List.all_eq_true]
      exact forall₂_congr fun n hn ↦ by rw [Negation.shown_eq_holds (beq_iff_eq.mp (h n hn))]
  · rw [isFlat_shape_of_links (List.cons_ne_nil _ _), List.all_eq_true] at h
    refine Bool.eq_iff_iff.mpr ?_
    change List.any _ _ = true ↔ List.any _ _ = true
    rw [List.any_eq_true, List.any_eq_true]
    exact exists_congr fun c ↦ and_congr_right fun hc ↦ by
      rw [Conjunction.shown_eq_holds (beq_iff_eq.mp (h c hc))]

/-- The disjunction with other comparisons, such that nothing in it holds. -/
def falsified (d : Disjunction) : Disjunction := d.map Conjunction.falsified

theorem shape_falsified (d : Disjunction) : d.falsified.shape = d.shape := by
  simp [shape, falsified, Function.comp_def, Conjunction.shape_falsified]

theorem holds_falsified (d : Disjunction) : d.falsified.holds = false := by
  simp [holds, falsified, List.any_map, Function.comp_def, Conjunction.holds_falsified]

theorem apparent_falsified {d : Disjunction} (hlinks : d.links ≠ []) {c : Conjunction}
    (hc : c ∈ d.operands) (h : c.shape ≠ [0]) : d.falsified.apparent = true := by
  obtain ⟨first, links⟩ := d
  obtain ⟨link, links, rfl⟩ := List.exists_cons_of_ne_nil hlinks
  change List.any (WordChain.operands (WordChain.map _ _)) Conjunction.shown = true
  rw [WordChain.operands_map, List.any_map, List.any_eq_true]
  exact ⟨c, hc, Conjunction.shown_of_shape (by rwa [c.shape_falsified])⟩

/-- Comparisons can be chosen such that a formula that is not flat shows something else. -/
theorem exists_apparent_ne_holds {d : Disjunction} (h : isFlat d.shape = false) :
    ∃ d' : Disjunction, d'.shape = d.shape ∧ d'.apparent ≠ d'.holds := by
  obtain ⟨⟨n, conjuncts⟩, disjuncts⟩ := d
  rcases disjuncts with - | ⟨link, disjuncts⟩
  · rcases conjuncts with - | ⟨link, conjuncts⟩
    · have hnots : ¬(n.withTruth true).nots ≤ 1 := by
        rw [n.nots_withTruth]
        exact of_decide_eq_false h
      have hholds : holds ⟨⟨n.withTruth true, []⟩, []⟩ = true := by
        simp [holds, Conjunction.holds, WordChain.operands]
      have happarent : apparent ⟨⟨n.withTruth true, []⟩, []⟩ = false :=
        Negation.apparent_of_nots hnots
      refine ⟨⟨⟨n.withTruth true, []⟩, []⟩, ?_, ?_⟩
      · simp [shape, Conjunction.shape, WordChain.operands]
      · rw [hholds, happarent]
        exact Bool.false_ne_true
    · rw [isFlat_shape_of_alone (List.cons_ne_nil _ _), List.all_eq_false] at h
      obtain ⟨k, hk, hnots⟩ := h
      have hholds : holds ⟨Conjunction.misleading ⟨n, link :: conjuncts⟩, []⟩ = false :=
        (Bool.or_false _).trans (Conjunction.holds_misleading hk (by simpa using hnots))
      have happarent : apparent ⟨Conjunction.misleading ⟨n, link :: conjuncts⟩, []⟩ = true :=
        Conjunction.all_shown_misleading ⟨n, link :: conjuncts⟩
      refine ⟨⟨Conjunction.misleading ⟨n, link :: conjuncts⟩, []⟩, ?_, ?_⟩
      · exact congrArg ([·]) (Conjunction.shape_misleading _)
      · rw [hholds, happarent]
        exact Bool.false_ne_true.symm
  · rw [isFlat_shape_of_links (List.cons_ne_nil _ _), List.all_eq_false] at h
    obtain ⟨c, hc, hshape⟩ := h
    refine ⟨falsified ⟨⟨n, conjuncts⟩, link :: disjuncts⟩, shape_falsified _, ?_⟩
    rw [holds_falsified, apparent_falsified (List.cons_ne_nil _ _) hc (by simpa using hshape)]
    exact Bool.false_ne_true.symm

/-- A formula is read as a whole, and in every machine its condition gives a value that counts as what
the formula shows. The formulas of a shape all show what they mean exactly when the shape is flat. -/
theorem condition_gives_apparent (d : Disjunction) :
    (∃ n, readAll .booleanExpression (String.ofList d.text) = .ok (.one (.node n)) ∧
      ∀ rounds depth m, d.first.links.length + d.links.length + 2 ≤ depth →
        ∃ w, evaluate rounds depth (.node n) none m = .ok w m ∧
          (m.heap.opened w).truthy = d.apparent) ∧
    (isFlat d.shape = true ↔ ∀ d' : Disjunction, d'.shape = d.shape → d'.apparent = d'.holds) := by
  refine ⟨⟨conditionFrom d.tree, d.readAll_text, fun rounds depth m hdepth ↦ ?_⟩, ?_, fun h ↦ ?_⟩
  · exact (d.shows_conditionFrom rounds m hdepth).exists_evaluate
  · exact fun hflat d' hshape ↦ apparent_eq_holds (hshape ▸ hflat)
  · by_contra hflat
    obtain ⟨d', hshape, hne⟩ := exists_apparent_ne_holds (Bool.eq_false_iff.mpr hflat)
    exact hne (h d' hshape)

/-- A false conjunction beside another false operand. -/
def falseBeside : Disjunction :=
  ⟨⟨.bare (.ofNats 1 .equal 2 (by decide) (by decide)),
    [⟨andWord, 0, 0, .bare (.ofNats 3 .equal 3 (by decide) (by decide)), by decide⟩]⟩,
    [⟨orWord, 0, 0, ⟨.bare (.ofNats 4 .equal 5 (by decide) (by decide)), []⟩, by decide⟩]⟩

/-- The formula does not hold, but gives a value that counts as true. -/
theorem falseBeside_gives_true :
    falseBeside.holds = false ∧ String.ofList falseBeside.text = "1 = 2 And 3 = 3 Or 4 = 5" ∧
    ∃ n, readAll .booleanExpression "1 = 2 And 3 = 3 Or 4 = 5" = .ok (.one (.node n)) ∧
      ∀ m, ∃ w, Semantics.run (.node n) none m = .ok w m ∧ (m.heap.opened w).truthy = true := by
  refine ⟨by decide, rfl, conditionFrom falseBeside.tree, falseBeside.readAll_text, fun m ↦ ?_⟩
  exact (falseBeside.shows_conditionFrom roundLimit m (by decide)).exists_evaluate

end Disjunction

end Grammar

end VbaTrace
