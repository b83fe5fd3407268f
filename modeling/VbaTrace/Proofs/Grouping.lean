import VbaTrace.Proofs.LiteralChains

/-!
How the operations of an expression are grouped. A grouping (`Grouping`) tells which operation is done
before which; an operation on several operands is done from left to right (`groupingOf`).

Products have a level of their own below quotients. So a chain of both is grouped as a quotient of
products (`MultiplicativeChain.exists_readAll`), and this is the order from left to right exactly when
no product stands behind a quotient (`quotientOfProducts_eq_fromLeft_iff`). The level of the remainder
takes itself for its right operand. So a chain of remainders is grouped from right to left
(`ModuloChain.exists_readAll`), which is the other order as soon as there are two of them.
-/

set_option autoImplicit false

namespace VbaTrace.Grammar

open Cursor (between)

/-! Groupings -/

/-- Numbers, and operations on two groupings. -/
inductive Grouping
  | literal (n : Int)
  | join (op : Operator) (left right : Grouping)
deriving DecidableEq, Repr

mutual

/-- How the operations of an expression on numbers are grouped. -/
def groupingOf : Value → Option Grouping
  | .int n => some (.literal n)
  | .node n => groupingOfNode n
  | _ => none

def groupingOfNode : Node → Option Grouping
  | .operation op (v :: vs) =>
    (groupingOf v).bind fun g ↦ (groupingsOf vs).map fun gs ↦ gs.foldl (.join op) g
  | _ => none

def groupingsOf : List Value → Option (List Grouping)
  | [] => some []
  | v :: vs => (groupingOf v).bind fun g ↦ (groupingsOf vs).map fun gs ↦ g :: gs

end

section

variable {v : Value} {g : Grouping} {vs : List Value} {gs : List Grouping}
  (hv : groupingOf v = some g) (hvs : groupingsOf vs = some gs)
include hv hvs

theorem groupingsOf_cons : groupingsOf (v :: vs) = some (g :: gs) := by
  rw [groupingsOf, hv, hvs, Option.bind_some, Option.map_some]

theorem groupingOf_operationOn (op : Operator) :
    groupingOf (operationOn op v vs) = some (gs.foldl (.join op) g) := by
  cases vs with
  | nil =>
    cases hvs
    exact hv
  | cons w ws =>
    rw [operationOn, groupingOf, groupingOfNode, hv, hvs, Option.bind_some, Option.map_some]

end

namespace Grouping

/-- Operations with a number each, from left to right. -/
def fromLeft (g : Grouping) (steps : List (Operator × Int)) : Grouping :=
  steps.foldl (fun g step ↦ .join step.1 g (.literal step.2)) g

def isLiteral : Grouping → Bool
  | literal _ => true
  | join .. => false

/-- Every operation has a number on its right. -/
def isFromLeft : Grouping → Bool
  | literal _ => true
  | join _ left right => left.isFromLeft && right.isLiteral

theorem isFromLeft_fromLeft {g : Grouping} (h : g.isFromLeft = true)
    (steps : List (Operator × Int)) : (g.fromLeft steps).isFromLeft = true := by
  induction steps generalizing g with
  | nil => exact h
  | cons step steps ih => exact ih (Bool.and_eq_true_iff.mpr ⟨h, rfl⟩)

end Grouping

/-! Products and quotients -/

inductive MultiplicativeSign
  | multiply | divide
deriving DecidableEq, Repr

namespace MultiplicativeSign

def char : MultiplicativeSign → Char
  | multiply => '*' | divide => '/'

def operator : MultiplicativeSign → Operator
  | multiply => .multiply | divide => .divide

end MultiplicativeSign

/-- A sign, the literal after it, and the numbers of spaces before and behind the sign. -/
structure MultiplicativeLink where
  sign : MultiplicativeSign
  before : Nat
  behind : Nat
  literal : IntegerLiteral

namespace MultiplicativeLink

def spaced (link : MultiplicativeLink) : LiteralLink :=
  ⟨link.sign.char, link.before, link.behind, link.literal⟩

def step (link : MultiplicativeLink) : Operator × Int :=
  (link.sign.operator, link.literal.value)

end MultiplicativeLink

/-- Integer literals with the signs of products and quotients between them. -/
structure MultiplicativeChain where
  first : IntegerLiteral
  links : List MultiplicativeLink

namespace MultiplicativeChain

def spaced (chain : MultiplicativeChain) : LiteralChain :=
  ⟨chain.first, chain.links.map MultiplicativeLink.spaced⟩

def text (chain : MultiplicativeChain) : String := String.ofList chain.spaced.text

def fromLeft (chain : MultiplicativeChain) : Grouping :=
  Grouping.fromLeft (.literal chain.first.value) (chain.links.map MultiplicativeLink.step)

/-- A product divides the quotient before it, if there is one. -/
def dividing (dividend : Option Grouping) (product : Grouping) : Grouping :=
  dividend.elim product fun g ↦ .join .divide g product

/-- The quotient of the products in the links, behind a dividend and the beginning of a product. -/
def quotient (dividend : Option Grouping) (product : Grouping) : List MultiplicativeLink → Grouping
  | [] => dividing dividend product
  | link :: links =>
    match link.sign with
    | .multiply => quotient dividend (.join .multiply product (.literal link.literal.value)) links
    | .divide => quotient (some (dividing dividend product)) (.literal link.literal.value) links

/-- All products are taken before the quotients. -/
def quotientOfProducts (chain : MultiplicativeChain) : Grouping :=
  quotient none (.literal chain.first.value) chain.links

/-- No product stands behind a quotient. -/
def HasProductsFirst (links : List MultiplicativeLink) : Prop :=
  links.Pairwise fun link later ↦ link.sign = .divide → later.sign = .divide

/-- The groups of products. -/
def groups (links : List MultiplicativeLink) : List Joint × List Joint :=
  Joint.grouped '/' .multiply (links.map fun link ↦ link.spaced.joint)

/-- The groups that are read are the products of which the quotient is taken. -/
theorem groupingsOf_groups (links : List MultiplicativeLink) :
    ∃ gs hs : List Grouping,
      groupingsOf ((groups links).1.map Joint.value) = some gs ∧
      groupingsOf ((groups links).2.map Joint.value) = some hs ∧
      ∀ dividend product, quotient dividend product links =
        hs.foldl (.join .divide) (dividing dividend (gs.foldl (.join .multiply) product)) := by
  induction links with
  | nil => exact ⟨[], [], rfl, rfl, fun _ _ ↦ rfl⟩
  | cons link links ih =>
    obtain ⟨sign, before, behind, literal⟩ := link
    obtain ⟨gs, hs, hsame, hlater, hquotient⟩ := ih
    have hliteral : groupingOf (.int literal.value) = some (.literal literal.value) := rfl
    cases sign with
    | multiply =>
      exact ⟨.literal literal.value :: gs, hs, groupingsOf_cons hliteral hsame, hlater,
        fun dividend product ↦ hquotient dividend _⟩
    | divide =>
      have hgroup := groupingOf_operationOn hliteral hsame .multiply
      exact ⟨[], gs.foldl (.join .multiply) (.literal literal.value) :: hs, rfl,
        groupingsOf_cons hgroup hlater, fun dividend product ↦ hquotient _ _⟩

/-- A chain of products and quotients is read as a whole, as a quotient of products. -/
theorem exists_readAll (chain : MultiplicativeChain) :
    ∃ v, readAll .expression chain.text = .ok (.one v) ∧
      groupingOf v = some chain.quotientOfProducts := by
  have hsigns (link : LiteralLink) (hlink : link ∈ chain.spaced.links) :
      link.sign = '*' ∨ link.sign = '/' := by
    obtain ⟨⟨sign, before, behind, literal⟩, -, rfl⟩ := List.mem_map.mp hlink
    cases sign with
    | multiply => exact .inl rfl
    | divide => exact .inr rfl
  refine ⟨_, LiteralChain.readAll_text neighbours_multiplicative hsigns, ?_⟩
  obtain ⟨gs, hs, hsame, hlater, hquotient⟩ := groupingsOf_groups chain.links
  have hfirst : groupingOf (.int chain.first.value) = some (.literal chain.first.value) := rfl
  have hjoints : chain.spaced.joints = chain.links.map fun link ↦ link.spaced.joint :=
    List.map_map
  have htree := groupingOf_operationOn (groupingOf_operationOn hfirst hsame .multiply) hlater .divide
  rw [quotientOfProducts, hquotient, LiteralChain.tree, hjoints]
  exact htree

/-! When this is the order from left to right -/

/-- Behind a quotient, only quotients are grouped from left to right. -/
theorem quotient_some_eq {links : List MultiplicativeLink} (h : ∀ link ∈ links, link.sign = .divide)
    (dividend product : Grouping) :
    quotient (some dividend) product links =
      (Grouping.join .divide dividend product).fromLeft (links.map MultiplicativeLink.step) := by
  induction links generalizing dividend product with
  | nil => rfl
  | cons link links ih =>
    obtain ⟨hlink, hlinks⟩ := List.forall_mem_cons.mp h
    rw [quotient, hlink, List.map_cons, MultiplicativeLink.step, hlink]
    exact ih hlinks _ _

theorem quotient_none_eq {links : List MultiplicativeLink} (h : HasProductsFirst links)
    (product : Grouping) :
    quotient none product links = product.fromLeft (links.map MultiplicativeLink.step) := by
  induction links generalizing product with
  | nil => rfl
  | cons link links ih =>
    obtain ⟨hlink, hlinks⟩ := List.pairwise_cons.mp h
    rw [quotient, List.map_cons, MultiplicativeLink.step]
    cases hsign : link.sign with
    | multiply => exact ih hlinks _
    | divide => exact quotient_some_eq (fun later hlater ↦ hlink later hlater hsign) _ _

theorem isFromLeft_of_quotient_some {links : List MultiplicativeLink} {dividend product : Grouping}
    (h : (quotient (some dividend) product links).isFromLeft = true) :
    dividend.isFromLeft = true ∧ product.isLiteral = true ∧ ∀ link ∈ links, link.sign = .divide := by
  induction links generalizing dividend product with
  | nil =>
    obtain ⟨hdividend, hproduct⟩ := Bool.and_eq_true_iff.mp h
    exact ⟨hdividend, hproduct, nofun⟩
  | cons link links ih =>
    rw [quotient] at h
    cases hsign : link.sign with
    | multiply =>
      rw [hsign] at h
      exact nomatch (ih h).2.1
    | divide =>
      rw [hsign] at h
      obtain ⟨hjoined, -, hlinks⟩ := ih h
      obtain ⟨hdividend, hproduct⟩ := Bool.and_eq_true_iff.mp hjoined
      exact ⟨hdividend, hproduct, List.forall_mem_cons.mpr ⟨hsign, hlinks⟩⟩

theorem hasProductsFirst_of_quotient_none {links : List MultiplicativeLink} {product : Grouping}
    (h : (quotient none product links).isFromLeft = true) : HasProductsFirst links := by
  induction links generalizing product with
  | nil => exact .nil
  | cons link links ih =>
    rw [quotient] at h
    cases hsign : link.sign with
    | multiply =>
      rw [hsign] at h
      exact .cons (fun _ _ hdivide ↦ nomatch hsign.symm.trans hdivide) (ih h)
    | divide =>
      rw [hsign] at h
      have hlinks := (isFromLeft_of_quotient_some h).2.2
      have hrest : HasProductsFirst links :=
        List.pairwise_of_forall_mem_list fun _ _ later hlater _ ↦ hlinks later hlater
      exact .cons (fun later hlater _ ↦ hlinks later hlater) hrest

theorem quotientOfProducts_eq_fromLeft_iff (chain : MultiplicativeChain) :
    chain.quotientOfProducts = chain.fromLeft ↔ HasProductsFirst chain.links := by
  constructor
  · intro heq
    have hleft : chain.fromLeft.isFromLeft = true := Grouping.isFromLeft_fromLeft rfl _
    rw [← heq] at hleft
    exact hasProductsFirst_of_quotient_none hleft
  · exact fun h ↦ quotient_none_eq h _

end MultiplicativeChain

/-! Remainders -/

/-- The ways to write the word for the remainder. -/
def moduloWords : List (List Char) :=
  ['M', 'm'].flatMap fun x ↦ ['o', 'O'].flatMap fun y ↦ ['d', 'D'].map fun z ↦ [x, y, z]

/-- The word for the remainder and the literal after it. The word stands between spaces, one more on
each side than the numbers say. -/
structure ModuloLink where
  word : List Char
  before : Nat
  behind : Nat
  literal : IntegerLiteral
  word_mem : word ∈ moduloWords

namespace ModuloLink

def text (link : ModuloLink) : List Char :=
  List.replicate (link.before + 1) ' ' ++
    (link.word ++ (List.replicate (link.behind + 1) ' ' ++ link.literal.text))

def step (link : ModuloLink) : Operator × Int :=
  (.modulo, link.literal.value)

theorem head_word (link : ModuloLink) : ∃ x ∈ ['M', 'm'], ∃ more, link.word = x :: more := by
  have hall : ∀ w ∈ moduloWords, w.head?.any ['M', 'm'].contains = true := by decide
  obtain ⟨x, hhead, hx⟩ := (Option.any_eq_true _ _).mp (hall link.word link.word_mem)
  exact ⟨x, List.contains_iff_mem.mp hx, List.head?_eq_some_iff.mp hhead⟩

theorem ahead_text (link : ModuloLink) (rest : List Char) :
    Ahead ['M', 'm'] (link.text ++ rest) := by
  obtain ⟨x, hx, more, hword⟩ := link.head_word
  rw [text, hword, List.append_assoc]
  exact ahead_sign hx (link.before + 1) _

theorem tab_not_mem_text (link : ModuloLink) : '\t' ∉ link.text := by
  have hall : ∀ w ∈ moduloWords, '\t' ∉ w := by decide
  simp only [text, List.mem_append, not_or]
  exact ⟨tab_not_mem_spaces _, hall link.word link.word_mem, tab_not_mem_spaces _,
    link.literal.tab_not_mem_text⟩

/-- The word is read between its spaces. -/
theorem ends_word (link : ModuloLink) (depth : Nat) (front rest : List Char) :
    (Pattern.lexeme (.keyword ['m', 'o', 'd'])).Ends depth true .normal
      (between front (List.replicate (link.before + 1) ' ' ++
        (link.word ++ (List.replicate (link.behind + 1) ' ' ++ rest))))
      (.matched (between (front ++ List.replicate (link.before + 1) ' ' ++ link.word)
        (List.replicate (link.behind + 1) ' ' ++ rest)) (.one (.text "mod"))) := by
  have hall : ∀ w ∈ moduloWords, isAscii w = true ∧
      w.map Char.toUpper = ['m', 'o', 'd'].map Char.toUpper ∧ w.head?.any isVisible = true := by
    decide
  obtain ⟨hascii, hcase, hvisible⟩ := hall link.word link.word_mem
  have hspace : touchesKeyword ' ' = false := by decide
  have hfront : (front ++ List.replicate (link.before + 1) ' ').getLast?.any touchesKeyword
      = false := by
    rw [getLast?_append_spaces]
    exact hspace
  have hrest : (List.replicate (link.behind + 1) ' ' ++ rest).head?.any touchesKeyword = false :=
    hspace
  exact ends_keyword hascii hcase hvisible hfront hrest depth

end ModuloLink

/-- Integer literals with the word for the remainder between them. -/
structure ModuloChain where
  first : IntegerLiteral
  links : List ModuloLink

namespace ModuloChain

/-- The text of the links. -/
def texts (links : List ModuloLink) : List Char := links.flatMap ModuloLink.text

def text (chain : ModuloChain) : String := String.ofList (chain.first.text ++ texts chain.links)

def fromLeft (chain : ModuloChain) : Grouping :=
  Grouping.fromLeft (.literal chain.first.value) (chain.links.map ModuloLink.step)

/-- The remainders behind a number, from right to left. -/
def remainders (n : Int) : List ModuloLink → Grouping
  | [] => .literal n
  | link :: links => .join .modulo (.literal n) (remainders link.literal.value links)

def fromRight (chain : ModuloChain) : Grouping := remainders chain.first.value chain.links

/-- The tree of the remainders behind a number. -/
def tree (n : Int) : List ModuloLink → Value
  | [] => .int n
  | link :: links => operationOn .modulo (.int n) [tree link.literal.value links]

theorem groupingOf_tree (n : Int) (links : List ModuloLink) :
    groupingOf (tree n links) = some (remainders n links) := by
  induction links generalizing n with
  | nil => rfl
  | cons link links ih =>
    have hright : groupingsOf [tree link.literal.value links] =
        some [remainders link.literal.value links] :=
      groupingsOf_cons (ih link.literal.value) rfl
    exact groupingOf_operationOn (g := .literal n) rfl hright .modulo

theorem texts_cons (link : ModuloLink) (links : List ModuloLink) :
    texts (link :: links) = List.replicate (link.before + 1) ' ' ++ (link.word ++
      (List.replicate (link.behind + 1) ' ' ++ (link.literal.text ++ texts links))) := by
  simp [texts, ModuloLink.text]

/-- One remainder continues a chain, with all the later ones in its operand. -/
theorem continues_texts {depth : Nat} {link : ModuloLink} {links : List ModuloLink} {v : Value}
    (h : Reads depth (.level .full 4) [] (link.literal.text ++ texts links) v) (front : List Char)
    {rest : List Char} (hrest : Ahead [] rest) :
    Continues depth "mod" (.lexeme (.keyword ['m', 'o', 'd'])) (Pattern.ref (.level .full 4))
      (between front (texts (link :: links) ++ rest)) [v]
      (between (front ++ texts (link :: links)) rest) := by
  have hstarts := Joint.startsVisibly_append link.literal.startsVisibly_text (texts links)
  have hword := link.ends_word depth front (link.literal.text ++ texts links ++ rest)
  have hright := h.after_spaces rfl hstarts (link.behind + 1)
    (front ++ List.replicate (link.before + 1) ' ' ++ link.word) rest hrest
  have hstop : (Lexeme.keyword ['m', 'o', 'd']).misses [] = true := by decide
  simp only [List.append_assoc] at hword hright
  simp only [texts_cons, List.append_assoc]
  refine .step hword hright ?_ ?_ (.stop (Lexeme.ends_of_misses hstop hrest _ _))
  · simp only [Cursor.between_offset, List.length_append, List.length_replicate]
    omega
  · simp only [Cursor.between_rest, List.length_append, List.length_replicate]
    omega

/-- The level of the remainder reads a literal and all remainders behind it. -/
theorem reads_level (t : IntegerLiteral) (links : List ModuloLink) :
    Reads (16 + links.length) (.level .full 4) [] (t.text ++ texts links) (tree t.value links) := by
  induction links generalizing t with
  | nil =>
    have hliteral : Reads 16 (.level .full 4) [] t.text (.int t.value) :=
      t.reads_level (k := 4) (List.forall_mem_nil _) (by decide)
    rw [texts, List.flatMap_nil, List.append_nil]
    exact hliteral
  | cons link links ih =>
    have hpattern : Ladder.full.pattern 4 = .chain (Pattern.ref (.level .full 3))
        (.lexeme (.keyword ['m', 'o', 'd'])) (Pattern.ref (.level .full 4))
        (some (.operation .modulo)) := rfl
    have hliteral : Reads 15 (.level .full 3) ['M', 'm'] t.text (.int t.value) :=
      t.reads_level (k := 3) (endsInteger_of_all (by decide)) (by decide)
    have hleft : Reads (16 + links.length) (.level .full 3) ['M', 'm'] t.text (.int t.value) :=
      hliteral.mono (by omega)
    have hahead (rest : List Char) (_ : Ahead [] rest) :
        Ahead ['M', 'm'] (texts (link :: links) ++ rest) := by
      rw [texts, List.flatMap_cons, List.append_assoc]
      exact link.ahead_text _
    exact fun front ↦ (hleft front).level hpattern t.startsVisibly_text hahead
      (fun rest hrest ↦ continues_texts (ih link.literal) (front ++ t.text) hrest)
      (chained_operation _ (.of_quiet rfl _))

theorem length_le_texts (links : List ModuloLink) : links.length ≤ (texts links).length := by
  induction links with
  | nil => exact Nat.le_refl 0
  | cons link links ih =>
    rw [texts_cons]
    simp only [List.length_append, List.length_cons, List.length_replicate]
    omega

/-- A chain of remainders is read as a whole, from right to left. -/
theorem exists_readAll (chain : ModuloChain) :
    ∃ v, readAll .expression chain.text = .ok (.one v) ∧ groupingOf v = some chain.fromRight := by
  refine ⟨tree chain.first.value chain.links, ?_, groupingOf_tree _ _⟩
  have hstarts := Joint.startsVisibly_append chain.first.startsVisibly_text (texts chain.links)
  have hread := (reads_level chain.first chain.links).expression hstarts (by decide)
  have htabs : '\t' ∉ chain.first.text ++ texts chain.links := by
    simp only [texts, List.mem_append, List.mem_flatMap, not_or, not_exists, not_and]
    exact ⟨chain.first.tab_not_mem_text, fun link _ ↦ link.tab_not_mem_text⟩
  refine hread.readAll_eq rfl htabs ?_
  have hlength := length_le_texts chain.links
  change 16 + chain.links.length + 7 + 1 ≤ _
  rw [depthBound, List.length_append]
  omega

/-- The two orders agree up to one remainder. -/
theorem fromRight_eq_fromLeft_iff (chain : ModuloChain) :
    chain.fromRight = chain.fromLeft ↔ chain.links.length ≤ 1 := by
  obtain ⟨first, links⟩ := chain
  constructor
  · intro heq
    have hleft : (fromLeft ⟨first, links⟩).isFromLeft = true := Grouping.isFromLeft_fromLeft rfl _
    rw [← heq] at hleft
    cases links with
    | nil => exact Nat.zero_le 1
    | cons link links =>
      cases links with
      | nil => exact Nat.le_refl 1
      | cons => exact nomatch hleft
  · intro hlength
    cases links with
    | nil => rfl
    | cons link links =>
      rw [List.eq_nil_of_length_eq_zero (Nat.le_zero.mp (Nat.le_of_succ_le_succ hlength))]
      rfl

end ModuloChain

/-! Both -/

/-- Chains of products and quotients and chains of remainders are read as a whole. The first are
grouped from left to right exactly when no product stands behind a quotient, the second exactly when
there is at most one remainder. -/
theorem groups_from_left_iff (chain : MultiplicativeChain) (remainders : ModuloChain) :
    (∃ v, readAll .expression chain.text = .ok (.one v) ∧
      groupingOf v = some chain.quotientOfProducts ∧
      (groupingOf v = some chain.fromLeft ↔ MultiplicativeChain.HasProductsFirst chain.links)) ∧
    ∃ v, readAll .expression remainders.text = .ok (.one v) ∧
      groupingOf v = some remainders.fromRight ∧
      (groupingOf v = some remainders.fromLeft ↔ remainders.links.length ≤ 1) := by
  obtain ⟨v, hread, hgroups⟩ := chain.exists_readAll
  obtain ⟨w, hreads, hremainders⟩ := remainders.exists_readAll
  refine ⟨⟨v, hread, hgroups, ?_⟩, w, hreads, hremainders, ?_⟩
  · rw [hgroups, Option.some_inj]
    exact chain.quotientOfProducts_eq_fromLeft_iff
  · rw [hremainders, Option.some_inj]
    exact remainders.fromRight_eq_fromLeft_iff

/-- A product behind a quotient is taken first, and so is the second of two remainders. -/
theorem later_operation_first :
    (∃ v, readAll .expression "8 / 4 * 2" = .ok (.one v) ∧
      groupingOf v = some (.join .divide (.literal 8) (.join .multiply (.literal 4) (.literal 2))) ∧
      groupingOf v ≠ some (.join .multiply (.join .divide (.literal 8) (.literal 4)) (.literal 2))) ∧
    ∃ v, readAll .expression "8 Mod 5 Mod 2" = .ok (.one v) ∧
      groupingOf v = some (.join .modulo (.literal 8) (.join .modulo (.literal 5) (.literal 2))) ∧
      groupingOf v ≠ some (.join .modulo (.join .modulo (.literal 8) (.literal 5)) (.literal 2)) := by
  obtain ⟨v, hread, hgroups⟩ := MultiplicativeChain.exists_readAll
    ⟨.ofNat 8 (by decide),
      [⟨.divide, 1, 1, .ofNat 4 (by decide)⟩, ⟨.multiply, 1, 1, .ofNat 2 (by decide)⟩]⟩
  obtain ⟨w, hreads, hremainders⟩ := ModuloChain.exists_readAll
    ⟨.ofNat 8 (by decide),
      [⟨['M', 'o', 'd'], 0, 0, .ofNat 5 (by decide), by decide⟩,
        ⟨['M', 'o', 'd'], 0, 0, .ofNat 2 (by decide), by decide⟩]⟩
  refine ⟨⟨v, hread, ?_⟩, w, hreads, ?_⟩
  · rw [hgroups]
    decide
  · rw [hremainders]
    decide

end VbaTrace.Grammar
