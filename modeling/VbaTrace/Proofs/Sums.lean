import Mathlib.Data.List.Forall2
import VbaTrace.Proofs.ConstantExpressions
import VbaTrace.Proofs.LiteralChains

/-!
Sums and differences of decimal literals. Minus binds tighter than plus, so that a chain of both is
read as a sum of differences (`AdditiveChain.readAll_text`). Its value is still the one that the
operations have from left to right: what is added to a difference may as well be added before the
subtractions (`AdditiveChain.foldl_sub_add`, `AdditiveChain.givesFrom_grouped`).
-/

set_option autoImplicit false

namespace VbaTrace.Semantics

open Grammar

/-! Operations on numbers -/

/-- The operand gives the value at this depth of evaluation and at every greater one. -/
def GivesFrom (rounds : Nat) (m : Machine) (depth : Nat) (v w : Value) : Prop :=
  ∀ d, depth ≤ d → Gives (evaluate rounds d) m v w

section

variable {rounds depth : Nat} {m : Machine}

/-- An operation on numbers gives what its function makes of them from left to right. -/
theorem givesFrom_operationOn (op : Operator) {f : Int → Int → Int}
    (hop : ∀ {evaluate : Evaluator} {vs : List Value} {n : Int} {ns : List Int},
      List.Forall₂ (Gives evaluate m) vs ((n :: ns).map Value.int) →
        evalOperation evaluate op vs m = .ok (.int (ns.foldl f n)) m)
    {v : Value} {n : Int} {vs : List Value} {ns : List Int}
    (hv : GivesFrom rounds m depth v (.int n))
    (hvs : List.Forall₂ (GivesFrom rounds m depth) vs (ns.map Value.int)) :
    GivesFrom rounds m (depth + 1) (operationOn op v vs) (.int (ns.foldl f n)) := by
  intro d hd
  cases ns with
  | nil =>
    cases hvs
    exact hv d (Nat.le_of_succ_le hd)
  | cons k ns =>
    cases hvs with
    | @cons w _ ws _ hw hws =>
      obtain ⟨d, rfl⟩ := Nat.exists_eq_add_of_le' (Nat.lt_of_lt_of_le depth.succ_pos hd)
      have hle : depth ≤ d := Nat.le_of_succ_le_succ hd
      have hall : List.Forall₂ (Gives (evaluate rounds d) m) (v :: w :: ws)
          ((n :: k :: ns).map Value.int) :=
        .cons (hv d hle) (.cons (hw d hle) (hws.imp fun _ _ h ↦ h d hle))
      exact evalOperand_node_iff.mpr ⟨allWritable_of_gives hall, hop hall⟩

end

/-! Chains -/

/-- Plus and minus. -/
inductive AdditiveSign
  | plus | minus
deriving DecidableEq, Repr

namespace AdditiveSign

def char : AdditiveSign → Char
  | plus => '+' | minus => '-'

def apply : AdditiveSign → Int → Int → Int
  | plus => (· + ·) | minus => (· - ·)

end AdditiveSign

/-- An integer literal in base ten. -/
structure DecimalLiteral extends IntegerLiteral where
  isDecimal : base = .decimal

/-- A sign and the literal after it. -/
structure AdditiveLink where
  sign : AdditiveSign
  literal : DecimalLiteral

namespace AdditiveLink

/-- A link is written with a space on each side of its sign. -/
def text (link : AdditiveLink) : List Char :=
  ' ' :: link.sign.char :: ' ' :: link.literal.text

/-- Adds or subtracts the literal. -/
def apply (n : Int) (link : AdditiveLink) : Int :=
  link.sign.apply n link.literal.value

def spaced (link : AdditiveLink) : LiteralLink :=
  ⟨link.sign.char, 1, 1, link.literal.toIntegerLiteral⟩

end AdditiveLink

/-- Decimal literals with plus and minus between them. -/
structure AdditiveChain where
  first : DecimalLiteral
  links : List AdditiveLink

namespace AdditiveChain

def text (chain : AdditiveChain) : String :=
  String.ofList (chain.first.text ++ chain.links.flatMap AdditiveLink.text)

/-- The additions and subtractions from left to right. -/
def leftToRight (chain : AdditiveChain) : Int :=
  chain.links.foldl AdditiveLink.apply chain.first.value

def spaced (chain : AdditiveChain) : LiteralChain :=
  ⟨chain.first.toIntegerLiteral, chain.links.map AdditiveLink.spaced⟩

theorem text_spaced (chain : AdditiveChain) : String.ofList chain.spaced.text = chain.text := by
  rw [text, LiteralChain.text, Joint.texts, LiteralChain.joints, spaced, List.map_map,
    List.flatMap_map]
  rfl

theorem readAll_text (chain : AdditiveChain) :
    readAll .expression chain.text = .ok (.one (chain.spaced.tree '+' .subtract .add)) := by
  have hsigns (link : LiteralLink) (hlink : link ∈ chain.spaced.links) :
      link.sign = '-' ∨ link.sign = '+' := by
    obtain ⟨⟨sign, literal⟩, -, rfl⟩ := List.mem_map.mp hlink
    cases sign with
    | plus => exact .inr rfl
    | minus => exact .inl rfl
  rw [← text_spaced]
  exact LiteralChain.readAll_text neighbours_additive hsigns

/-- The differences in a chain. -/
def grouped (links : List AdditiveLink) : List Joint × List Joint :=
  Joint.grouped '+' .subtract (links.map fun link ↦ link.spaced.joint)

/-- What is added to a difference may as well be added before the subtractions. -/
theorem foldl_sub_add (ns : List Int) (a b : Int) :
    ns.foldl (· - ·) (a + b) = a + ns.foldl (· - ·) b := by
  induction ns generalizing b with
  | nil => rfl
  | cons n ns ih => rw [List.foldl_cons, List.foldl_cons, ← ih, Int.add_sub_assoc]

/-- The groups of a chain give differences, and these add up to the value from left to right. -/
theorem givesFrom_grouped (rounds : Nat) (m : Machine) (links : List AdditiveLink) :
    ∃ ns ks : List Int,
      List.Forall₂ (GivesFrom rounds m 0) ((grouped links).1.map Joint.value) (ns.map Value.int) ∧
      List.Forall₂ (GivesFrom rounds m 1) ((grouped links).2.map Joint.value) (ks.map Value.int) ∧
      ∀ a, links.foldl AdditiveLink.apply a = ks.foldl (· + ·) (ns.foldl (· - ·) a) := by
  induction links with
  | nil => exact ⟨[], [], .nil, .nil, fun _ ↦ rfl⟩
  | cons link links ih =>
    obtain ⟨sign, literal⟩ := link
    obtain ⟨ns, ks, hsame, hlater, hfold⟩ := ih
    have hliteral : GivesFrom rounds m 0 (.int literal.value) (.int literal.value) :=
      fun _ _ ↦ gives_int (IntegerLiteral.isWritable_value literal.isDecimal)
    cases sign with
    | plus =>
      have hgroup := givesFrom_operationOn .subtract evalDifference_of_ints hliteral hsame
      refine ⟨[], ns.foldl (· - ·) literal.value :: ks, .nil, .cons hgroup hlater, fun a ↦ ?_⟩
      rw [List.foldl_cons, hfold]
      exact congrArg (ks.foldl (· + ·)) (foldl_sub_add ns a literal.value)
    | minus => exact ⟨literal.value :: ns, ks, .cons hliteral hsame, hlater, fun a ↦ hfold _⟩

/-- A chain of additions and subtractions is read as a whole, and evaluates in every machine to the
number that the operations have from left to right. -/
theorem evaluates_left_to_right (chain : AdditiveChain) :
    ∃ v, readAll .expression chain.text = .ok (.one v) ∧
      ∀ (rounds extra : Nat) (m : Machine),
        evalOperand (evaluate rounds (extra + 2)) v m = .ok (.int chain.leftToRight) m := by
  refine ⟨_, chain.readAll_text, fun rounds extra m ↦ ?_⟩
  obtain ⟨ns, ks, hsame, hlater, hfold⟩ := givesFrom_grouped rounds m chain.links
  have hfirst : GivesFrom rounds m 0 (.int chain.first.value) (.int chain.first.value) :=
    fun _ _ ↦ gives_int (IntegerLiteral.isWritable_value chain.first.isDecimal)
  have hgroup := givesFrom_operationOn .subtract evalDifference_of_ints hfirst hsame
  have hsum := givesFrom_operationOn .add evalSum_of_ints hgroup hlater
  rw [← hfold] at hsum
  have hjoints : chain.spaced.joints = chain.links.map fun link ↦ link.spaced.joint :=
    List.map_map
  rw [LiteralChain.tree, hjoints]
  exact hsum (extra + 2) (Nat.le_add_left 2 extra)

end AdditiveChain

end VbaTrace.Semantics
