import VbaTrace.Proofs.IntegerLiterals

/-!
Chains of integer literals. The signs of two neighbouring rungs (`Neighbours`) may stand between the
literals in any order and with any spaces around them. The whole text is read, and its tree has the
groups of the lower rung as operands of the upper one (`LiteralChain.readAll_text`).
-/

set_option autoImplicit false

namespace VbaTrace.Grammar

/-- A sign, the literal after it, and the numbers of spaces before and behind the sign. -/
structure LiteralLink where
  sign : Char
  before : Nat
  behind : Nat
  literal : IntegerLiteral

def LiteralLink.joint (link : LiteralLink) : Joint :=
  ⟨link.sign, link.before, link.behind, link.literal.text, .int link.literal.value⟩

/-- Integer literals with signs between them. -/
structure LiteralChain where
  first : IntegerLiteral
  links : List LiteralLink

/-- The signs of two neighbouring rungs, the lower one first. They can stand behind a literal, and at
no other level. -/
structure Neighbours (k : Nat) (x y : Char) (tight loose : Operator) : Prop where
  lower : Ladder.full.pattern (k + 1) = .chain (Pattern.ref (.level .full k)) (.lexeme (.exact [x]))
    (Pattern.ref (.level .full k)) (some (.operation tight))
  upper : Ladder.full.pattern (k + 2) = .chain (Pattern.ref (.level .full (k + 1)))
    (.lexeme (.exact [y])) (Pattern.ref (.level .full (k + 1))) (some (.operation loose))
  ends : ∀ z ∈ [x, y], EndsInteger z
  missed : (Lexeme.exact [x]).misses [y] = true ∧ (Lexeme.exact [y]).misses [] = true
  quiet : (Builder.operation tight).isLogged = false ∧ (Builder.operation loose).isLogged = false
  below : ∀ j < k, Ladder.full.isIdle [x, y] (0 + j) = true
  inside : k ≤ 9

/-- Products and quotients. -/
theorem neighbours_multiplicative : Neighbours 0 '*' '/' .multiply .divide :=
  ⟨rfl, rfl, endsInteger_of_all (by decide), by decide, by decide, by decide, by decide⟩

/-- Differences and sums. -/
theorem neighbours_additive : Neighbours 4 '-' '+' .subtract .add :=
  ⟨rfl, rfl, endsInteger_of_all (by decide), by decide, by decide, by decide, by decide⟩

/-- A level reads a literal where a sign of this level or of one above it can come next. -/
theorem IntegerLiteral.reads_level (t : IntegerLiteral) {signs : List Char}
    (hends : ∀ x ∈ signs, EndsInteger x) {k : Nat}
    (hbelow : ∀ j < k, Ladder.full.isIdle signs (0 + j) = true) :
    Reads (12 + k) (.level .full k) signs t.text (.int t.value) := by
  have hitem := (t.reads_exprItem hends).item (l := .full) t.startsVisibly_text
  have hlevel := hitem.climb t.startsVisibly_text k hbelow
  rwa [Nat.zero_add] at hlevel

namespace LiteralChain

def joints (chain : LiteralChain) : List Joint := chain.links.map LiteralLink.joint

def text (chain : LiteralChain) : List Char :=
  chain.first.text ++ Joint.texts chain.joints

/-- The tree of a chain: groups of the tighter sign, joined by the looser one. -/
def tree (chain : LiteralChain) (y : Char) (tight loose : Operator) : Value :=
  operationOn loose
    (operationOn tight (.int chain.first.value)
      ((Joint.grouped y tight chain.joints).1.map Joint.value))
    ((Joint.grouped y tight chain.joints).2.map Joint.value)

variable {chain : LiteralChain} {k : Nat} {x y : Char} {tight loose : Operator}

theorem startsVisibly_text (chain : LiteralChain) : startsVisibly chain.text = true :=
  Joint.startsVisibly_append chain.first.startsVisibly_text _

theorem tab_not_mem_text (hlinks : ∀ link ∈ chain.links, link.sign ≠ '\t') :
    '\t' ∉ chain.text := by
  have hjoints (j : Joint) (hj : j ∈ chain.joints) : j.sign ≠ '\t' ∧ '\t' ∉ j.operand := by
    obtain ⟨link, hlink, rfl⟩ := List.mem_map.mp hj
    exact ⟨hlinks link hlink, link.literal.tab_not_mem_text⟩
  rw [text, List.mem_append, not_or]
  exact ⟨chain.first.tab_not_mem_text, Joint.tab_not_mem_texts hjoints⟩

theorem reads_text (h : Neighbours k x y tight loose)
    (hlinks : ∀ link ∈ chain.links, link.sign = x ∨ link.sign = y) :
    Reads 24 .expression [] chain.text (chain.tree y tight loose) := by
  have hjoints (j : Joint) (hj : j ∈ chain.joints) :
      (j.sign = x ∨ j.sign = y) ∧ j.IsRead (12 + k) (.level .full k) [x, y] := by
    obtain ⟨link, hlink, rfl⟩ := List.mem_map.mp hj
    exact ⟨hlinks link hlink, link.literal.startsVisibly_text,
      link.literal.reads_level h.ends h.below⟩
  have hmixed := (chain.first.reads_level h.ends h.below).mixed h.lower h.upper
    h.quiet.1 h.quiet.2 (h.ends x List.mem_cons_self).visible
    (h.ends y (List.mem_cons_of_mem x List.mem_cons_self)).visible h.missed.1 h.missed.2
    chain.first.startsVisibly_text hjoints
  refine (hmixed.expression chain.startsVisibly_text (Nat.add_le_add_right h.inside 2)).mono ?_
  change 12 + k + 2 + (11 - (k + 2)) + 1 ≤ 24
  have hinside := h.inside
  omega

/-- A chain of literals is read as a whole, in groups of the tighter sign. -/
theorem readAll_text (h : Neighbours k x y tight loose)
    (hlinks : ∀ link ∈ chain.links, link.sign = x ∨ link.sign = y) :
    readAll .expression (String.ofList chain.text) = .ok (.one (chain.tree y tight loose)) := by
  have hsigns (link : LiteralLink) (hlink : link ∈ chain.links) : link.sign ≠ '\t' := by
    have hends : EndsInteger link.sign := h.ends link.sign (by simpa using hlinks link hlink)
    exact fun heq ↦ absurd (heq ▸ hends.visible) (by decide)
  refine (reads_text h hlinks).readAll_eq rfl (tab_not_mem_text hsigns) ?_
  rw [depthBound]
  omega

end LiteralChain

end VbaTrace.Grammar
