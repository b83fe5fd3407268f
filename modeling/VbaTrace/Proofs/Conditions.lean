import VbaTrace.Proofs.IntegerLiterals

/-!
Conditions on whole numbers. Comparisons of integer literals (`Comparison`), each with any number of
negations before it (`Negation`), are joined to conjunctions and those to disjunctions, by words in any
case with spaces around them (`WordChain`). Such a text is read as a whole, and with it the words bind
as tightly as one expects: negation first, then conjunction (`Disjunction.readAll_text`).

The tree that is read is a condition only at the outside. A negation, and what a word joins inside the
outermost one, stays a list of tokens.
-/

set_option autoImplicit false

namespace VbaTrace.Grammar

open Cursor (between)

/-! Words between spaces -/

/-- Spaces, one more than the number says. -/
def gap (n : Nat) : List Char := List.replicate (n + 1) ' '

theorem touches_append_gap (front : List Char) (n : Nat) :
    (front ++ gap n).getLast?.any touchesKeyword = false := by
  rw [gap, getLast?_append_spaces]
  decide

/-- Nothing follows, or spaces do, and behind them one of the signs or the end. -/
structure Apart (signs rest : List Char) : Prop where
  ahead : Ahead signs rest
  space : ∀ x ∈ rest.head?, x = ' '

section

variable {signs after rest : List Char}

theorem apart_nil (signs : List Char) : Apart signs [] := ⟨ahead_nil signs, nofun⟩

theorem apart_gap {x : Char} (hx : x ∈ signs) (n : Nat) (rest : List Char) :
    Apart signs (gap n ++ x :: rest) :=
  ⟨ahead_sign hx (n + 1) rest, fun _ hy ↦ (Option.mem_some.mp hy).symm⟩

theorem Apart.mono (h : Apart after rest) (hsubset : after ⊆ signs) : Apart signs rest :=
  ⟨h.ahead.mono hsubset, h.space⟩

theorem Apart.head_any (h : Apart signs rest) {p : Char → Bool} (hp : p ' ' = false) :
    rest.head?.any p = false := by
  cases hhead : rest.head? with
  | none => rfl
  | some x => rw [h.space x hhead, Option.any_some, hp]

/-- Spaces end an integer literal, whichever letters follow them. -/
theorem Apart.integerEnds (h : Apart signs rest)
    (hsigns : (fractionSigns.all fun w ↦ (Lexeme.caseless [w]).misses signs) = true) :
    IntegerEnds rest where
  decimal := h.head_any (by decide)
  octal := h.head_any (by decide)
  hexadecimal := h.head_any (by decide)
  suffix := h.head_any (by decide)
  fraction w hw := Lexeme.ends_of_misses (List.all_eq_true.mp hsigns w hw) h.ahead

end

theorem ReadsAt.ends_gap {depth n : Nat} {r : Rule} {front text : List Char}
    {next : List Char → Prop} {v : Value} (h : ReadsAt depth r (front ++ gap n) next text v)
    (hlead : r.lead = .usual) (htext : startsVisibly text = true) {rest : List Char}
    (hrest : next rest) :
    (Pattern.ref r).Ends depth true .normal (between front (gap n ++ (text ++ rest)))
      (.matched (between (front ++ gap n ++ text) rest) (.one v)) := by
  have hread := h.after_spaces hlead htext rest hrest
  rwa [List.append_assoc, ← List.append_assoc front] at hread

/-- The ways to write a word, each letter in either case. -/
def spellings : List Char → List (List Char)
  | [] => [[]]
  | x :: xs => [x.toUpper, x.toLower].flatMap fun y ↦ (spellings xs).map (y :: ·)

/-- However the word is written, it can be read, and begins with one of the initials. -/
structure IsWord (word initials : List Char) : Prop where
  ascii : ∀ w ∈ spellings word, isAscii w = true
  cased : ∀ w ∈ spellings word, w.map Char.toUpper = word.map Char.toUpper
  initial : ∀ w ∈ spellings word, w.head?.any initials.contains = true
  visible : initials.all isVisible = true
  no_tab : ∀ w ∈ spellings word, '\t' ∉ w

namespace IsWord

variable {word initials w : List Char} (h : IsWord word initials) (hw : w ∈ spellings word)
include h hw

theorem exists_head : ∃ x ∈ initials, w.head? = some x := by
  obtain ⟨x, hhead, hx⟩ := (Option.any_eq_true _ _).mp (h.initial w hw)
  exact ⟨x, List.contains_iff_mem.mp hx, hhead⟩

theorem startsVisibly : startsVisibly w = true := by
  obtain ⟨x, hx, hhead⟩ := h.exists_head hw
  rw [Grammar.startsVisibly, hhead]
  exact List.all_eq_true.mp h.visible x hx

/-- The word is read where nothing touches it from the front and spaces follow. -/
theorem scan {front : List Char} (hfront : front.getLast?.any touchesKeyword = false) (behind : Nat)
    (rest : List Char) :
    (Lexeme.keyword word).scan (between front (w ++ (gap behind ++ rest))) =
      some (between (front ++ w) (gap behind ++ rest), some (String.ofList word)) := by
  have hspace : touchesKeyword ' ' = false := by decide
  have hrest : (gap behind ++ rest).head?.any touchesKeyword = false := hspace
  exact Cursor.scan_keyword (h.ascii w hw) (h.cased w hw) hfront hrest

/-- The word is read between its spaces. -/
theorem ends (depth before behind : Nat) (front rest : List Char) :
    (Pattern.lexeme (.keyword word)).Ends depth true .normal
      (between front (gap before ++ (w ++ (gap behind ++ rest))))
      (.matched (between (front ++ gap before ++ w) (gap behind ++ rest))
        (.one (.text (String.ofList word)))) := by
  have hspace : touchesKeyword ' ' = false := by decide
  have hrest : (gap behind ++ rest).head?.any touchesKeyword = false := hspace
  exact ends_keyword (h.ascii w hw) (h.cased w hw) (h.startsVisibly hw)
    (touches_append_gap front before) hrest depth

end IsWord

def andWord : List Char := ['A', 'n', 'd']
def orWord : List Char := ['O', 'r']
def notWord : List Char := ['N', 'o', 't']

theorem isWord_and : IsWord andWord ['A', 'a'] :=
  ⟨by decide, by decide, by decide, by decide, by decide⟩

theorem isWord_or : IsWord orWord ['O', 'o'] :=
  ⟨by decide, by decide, by decide, by decide, by decide⟩

theorem isWord_not : IsWord notWord ['N', 'n'] :=
  ⟨by decide, by decide, by decide, by decide, by decide⟩

/-- Of several keywords, the first one that can be read is. -/
theorem ends_keywords {depth : Nat} {mode : Mode} {c d : Cursor} {t : Tokens} {earlier : List String}
    {s : String} (hearlier : ∀ e ∈ earlier, (Pattern.kw e).Ends depth true mode c .failed)
    (hs : (Pattern.kw s).Ends depth true mode c (.matched d t)) (later : List String) :
    (Pattern.keywords (earlier ++ s :: later)).Ends depth true mode c (.matched d t) := by
  induction earlier with
  | nil =>
    cases later with
    | nil => exact hs
    | cons => exact .first_of_matched hs
  | cons e earlier ih =>
    obtain ⟨he, hmore⟩ := List.forall_mem_cons.mp hearlier
    have hrest := ih hmore
    obtain ⟨u, us, hne⟩ : ∃ u us, earlier ++ s :: later = u :: us :=
      List.exists_cons_of_ne_nil (by simp)
    rw [hne] at hrest
    rw [List.cons_append, hne]
    exact .first_of_failed he hrest

theorem ends_keywords_of_failed {depth : Nat} {mode : Mode} {c : Cursor} {es : List String}
    (h : ∀ e ∈ es, (Pattern.kw e).Ends depth true mode c .failed) :
    (Pattern.keywords es).Ends depth true mode c .failed := by
  induction es with
  | nil => exact fun _ _ ↦ rfl
  | cons e es ih =>
    obtain ⟨he, hes⟩ := List.forall_mem_cons.mp h
    cases es with
    | nil => exact he
    | cons => exact .first_of_failed he (ih hes)

/-! Comparisons -/

inductive ComparisonSign
  | equal | unequal | less | lessOrEqual | greater | greaterOrEqual
deriving DecidableEq, Repr

namespace ComparisonSign

def text : ComparisonSign → List Char
  | equal => ['='] | unequal => ['<', '>'] | less => ['<'] | lessOrEqual => ['<', '=']
  | greater => ['>'] | greaterOrEqual => ['>', '=']

def holds : ComparisonSign → Int → Int → Bool
  | equal, a, b => a = b
  | unequal, a, b => a ≠ b
  | less, a, b => a < b
  | lessOrEqual, a, b => a ≤ b
  | greater, a, b => b < a
  | greaterOrEqual, a, b => b ≤ a

/-- The signs that are tried before this one. -/
def earlier : ComparisonSign → List String
  | greaterOrEqual => []
  | lessOrEqual => [">="]
  | unequal => [">=", "<="]
  | equal => [">=", "<=", "<>"]
  | greater => [">=", "<=", "<>", "="]
  | less => [">=", "<=", "<>", "=", ">"]

theorem exists_later (sign : ComparisonSign) :
    ∃ later, Pattern.comparisonSigns = sign.earlier ++ String.ofList sign.text :: later := by
  cases sign <;> exact ⟨_, rfl⟩

/-- A sign may begin like an earlier one, but a space follows where that one goes on. -/
theorem scan_earlier (sign : ComparisonSign) {s : String} (hs : s ∈ sign.earlier)
    (front rest : List Char) :
    (Lexeme.keyword s.toList).scan (between front (sign.text ++ ' ' :: rest)) = none := by
  cases sign <;> simp only [earlier, List.mem_cons, List.not_mem_nil, or_false] at hs
  case lessOrEqual => subst hs; rfl
  case unequal => rcases hs with rfl | rfl <;> rfl
  case equal => rcases hs with rfl | rfl | rfl <;> rfl
  case greater => rcases hs with rfl | rfl | rfl | rfl <;> rfl
  case less => rcases hs with rfl | rfl | rfl | rfl | rfl <;> rfl

theorem startsVisibly_text (sign : ComparisonSign) : startsVisibly sign.text = true := by
  cases sign <;> decide

theorem head_text (sign : ComparisonSign) :
    ∃ x ∈ ['=', '<', '>'], ∃ more, sign.text = x :: more := by
  cases sign <;> exact ⟨_, by decide, _, rfl⟩

theorem tab_not_mem_text (sign : ComparisonSign) : '\t' ∉ sign.text := by
  cases sign <;> decide

/-- The sign is read between its spaces. -/
theorem ends (sign : ComparisonSign) (depth before behind : Nat) (front rest : List Char) :
    (Pattern.keywords Pattern.comparisonSigns).Ends depth true .normal
      (between front (gap before ++ (sign.text ++ (gap behind ++ rest))))
      (.matched (between (front ++ gap before ++ sign.text) (gap behind ++ rest))
        (.one (.text (String.ofList sign.text)))) := by
  obtain ⟨later, hsigns⟩ := sign.exists_later
  have hspace : touchesKeyword ' ' = false := by decide
  have hrest : (gap behind ++ rest).head?.any touchesKeyword = false := hspace
  have hascii : isAscii sign.text = true := by cases sign <;> decide
  have hat := at_of_startsVisibly sign.startsVisibly_text (front ++ gap before) (gap behind ++ rest)
  rw [hsigns]
  refine ends_keywords (fun s hs ↦ ?_) ?_ later
  · have hvisible : ∀ y ∈ (sign.text ++ (gap behind ++ rest)).head?, isVisible y = true :=
      hat.head ▸ hat.visible
    exact .lexeme_of_none (Lexeme.enter_spaces rfl (before + 1) hvisible) (sign.scan_earlier hs _ _)
      depth
  · rw [Pattern.kw, String.toList_ofList]
    exact ends_keyword hascii rfl sign.startsVisibly_text (touches_append_gap front before) hrest depth

end ComparisonSign

/-- Two integer literals with a sign between them. The spaces around the sign are one more on each side
than the numbers say, and the literals have base-ten texts. -/
structure Comparison where
  lhs : IntegerLiteral
  sign : ComparisonSign
  rhs : IntegerLiteral
  before : Nat
  behind : Nat
  lhs_writable : Decimal.isWritable lhs.value = true
  rhs_writable : Decimal.isWritable rhs.value = true

namespace Comparison

def text (c : Comparison) : List Char :=
  c.lhs.text ++ (gap c.before ++ (c.sign.text ++ (gap c.behind ++ c.rhs.text)))

def holds (c : Comparison) : Bool := c.sign.holds c.lhs.value c.rhs.value

def tree (c : Comparison) : Value :=
  .node (.comparison (.int c.lhs.value) (.text (String.ofList c.sign.text)) (.int c.rhs.value))

theorem isWritable_tree (c : Comparison) : c.tree.isWritable = true := by
  rw [tree, Value.isWritable, Node.isWritable, Value.isWritable, Value.isWritable, c.lhs_writable,
    c.rhs_writable]
  rfl

/-- The letters with which the words behind an operand begin. -/
def initials : List Char := ['A', 'a', 'O', 'o']

theorem head_text (c : Comparison) : ∃ x ∈ IntegerLiteral.starts, c.text.head? = some x := by
  obtain ⟨x, hx, hhead⟩ := c.lhs.head_text
  refine ⟨x, hx, ?_⟩
  rw [text, List.head?_append, hhead]
  rfl

theorem startsVisibly_text (c : Comparison) : startsVisibly c.text = true :=
  Joint.startsVisibly_append c.lhs.startsVisibly_text _

theorem tab_not_mem_text (c : Comparison) : '\t' ∉ c.text := by
  simp only [text, List.mem_append, not_or]
  exact ⟨c.lhs.tab_not_mem_text, tab_not_mem_spaces _, c.sign.tab_not_mem_text, tab_not_mem_spaces _,
    c.rhs.tab_not_mem_text⟩

end Comparison

/-- A side of a comparison is read where what follows ends it. -/
theorem IntegerLiteral.readsAt_limitedExpression (t : IntegerLiteral) {next : List Char → Prop}
    {signs : List Char} (hends : ∀ rest, next rest → IntegerEnds rest)
    (hahead : ∀ rest, next rest → Ahead signs rest)
    (hidle : ∀ j < 8, Ladder.limited.isIdle signs (0 + j) = true) (front : List Char) :
    ReadsAt 21 .limitedExpression front next t.text (.int t.value) := by
  have hitem : ReadsAt 11 Ladder.limited.item front next t.text (.int t.value) :=
    fun rest hrest ↦ t.readsAt_exprItem front rest (hends rest hrest)
  have htop := (hitem.item t.startsVisibly_text).climb t.startsVisibly_text hahead 8 hidle
  intro rest hrest
  have hat := at_of_startsVisibly t.startsVisibly_text front rest
  exact .rule (hat.enter _ _ _) (htop.ends t.startsVisibly_text hrest false)

namespace Comparison

theorem readsAt_item (c : Comparison) (front : List Char) :
    ReadsAt 22 .boolExprItem front (Apart initials) c.text c.tree := by
  intro rest hrest
  have hat := at_of_startsVisibly c.startsVisibly_text front rest
  have hsigns : (fractionSigns.all fun w ↦ (Lexeme.caseless [w]).misses initials) = true := by decide
  have hlhs := c.lhs.readsAt_limitedExpression
    (fun rest (h : Ahead ['=', '<', '>'] rest) ↦ h.integerEnds (endsInteger_of_all (by decide)))
    (fun _ h ↦ h) (by decide) front
  have hrhs (front : List Char) := c.rhs.readsAt_limitedExpression
    (fun rest (h : Apart initials rest) ↦ h.integerEnds hsigns) (fun _ h ↦ h.ahead) (by decide) front
  have hahead : Ahead ['=', '<', '>']
      (gap c.before ++ (c.sign.text ++ (gap c.behind ++ (c.rhs.text ++ rest)))) := by
    obtain ⟨x, hx, more, hsign⟩ := c.sign.head_text
    rw [hsign]
    exact ahead_sign hx (c.before + 1) _
  have hleft := hlhs.ends c.lhs.startsVisibly_text hahead false
  have hsign := c.sign.ends 21 c.before c.behind (front ++ c.lhs.text) (c.rhs.text ++ rest)
  have hright := (hrhs (front ++ c.lhs.text ++ gap c.before ++ c.sign.text ++ gap c.behind)).ends_gap
    rfl c.rhs.startsVisibly_text hrest
  have hrest' : c.text ++ rest = c.lhs.text ++
      (gap c.before ++ (c.sign.text ++ (gap c.behind ++ (c.rhs.text ++ rest)))) := by
    simp only [text, List.append_assoc]
  have hfront : front ++ c.text = front ++ c.lhs.text ++ gap c.before ++ c.sign.text ++
      gap c.behind ++ c.rhs.text := by
    simp only [text, List.append_assoc]
  rw [hrest'] at hat
  rw [hrest', hfront]
  have htokens := Pattern.Ends.seq (hat.skipped true _ _) (.seq rfl hleft hsign rfl) hright rfl
  exact .rule (hat.enter _ _ _) (.build rfl (.first_of_matched htokens)
    (Outcome.built_node rfl c.isWritable_tree _))

end Comparison

/-! Operands of words -/

/-- A level reads the text as an operand that one of the signs, or nothing, can follow. A word may come
first in it, so nothing may touch it from the front. -/
structure IsOperand (depth k : Nat) (signs text : List Char) (v : Value) : Prop where
  starts : startsVisibly text = true
  reads : ∀ front, front.getLast?.any touchesKeyword = false →
    ReadsAt depth (.level .boolean k) front (Apart signs) text v

namespace IsOperand

variable {depth k : Nat} {signs text : List Char} {v : Value}

theorem mono (h : IsOperand depth k signs text v) {deeper : Nat} (hle : depth ≤ deeper) :
    IsOperand deeper k signs text v :=
  ⟨h.starts, fun front hfront ↦ (h.reads front hfront).mono hle⟩

theorem climb (h : IsOperand depth k signs text v) (n : Nat)
    (hidle : ∀ j < n, Ladder.boolean.isIdle signs (k + j) = true) :
    IsOperand (depth + n) (k + n) signs text v :=
  ⟨h.starts, fun front hfront ↦
    (h.reads front hfront).climb h.starts (fun _ hrest ↦ hrest.ahead) n hidle⟩

/-- Behind spaces, the operand can be read. -/
theorem ends (h : IsOperand depth k signs text v) (front : List Char) (n : Nat) {rest : List Char}
    (hrest : Apart signs rest) :
    (Pattern.ref (.level .boolean k)).Ends depth true .normal
      (between front (gap n ++ (text ++ rest))) (.matched (between (front ++ gap n ++ text) rest)
        (.one v)) := by
  exact (h.reads _ (touches_append_gap front n)).ends_gap rfl h.starts hrest

end IsOperand

/-! Negations -/

/-- A comparison behind any number of negations. -/
inductive Negation
  | bare (c : Comparison)
  | not (spelling : List Char) (behind : Nat) (spelling_mem : spelling ∈ spellings notWord)
    (inner : Negation)

namespace Negation

def text : Negation → List Char
  | bare c => c.text
  | not spelling behind _ inner => spelling ++ (gap behind ++ inner.text)

def holds : Negation → Bool
  | bare c => c.holds
  | not _ _ _ inner => !inner.holds

def tree : Negation → Value
  | bare c => c.tree
  | not _ _ _ inner => .tokens (.ofList [.text (String.ofList notWord), inner.tree])

theorem isWritable_tree (n : Negation) : n.tree.isWritable = true := by
  induction n with
  | bare c => exact c.isWritable_tree
  | not spelling behind spelling_mem inner ih =>
    rw [tree, Tokens.ofList, Value.isWritable, allWritable, allWritable, ih]
    rfl

theorem tab_not_mem_text (n : Negation) : '\t' ∉ n.text := by
  induction n with
  | bare c => exact c.tab_not_mem_text
  | not spelling behind spelling_mem inner ih =>
    simp only [text, List.mem_append, not_or]
    exact ⟨isWord_not.no_tab spelling spelling_mem, tab_not_mem_spaces _, ih⟩

theorem isOperand (n : Negation) :
    IsOperand (24 + n.text.length) 1 Comparison.initials n.text n.tree := by
  induction n with
  | bare c =>
    refine ⟨c.startsVisibly_text, fun front _ rest hrest ↦ ?_⟩
    have hat := at_of_startsVisibly c.startsVisibly_text front rest
    have hitem := ((c.readsAt_item front).item (l := .boolean) c.startsVisibly_text) rest hrest
    have hall : (IntegerLiteral.starts.all fun x ↦
        (Lexeme.keyword notWord).refuses (some x)) = true := by
      decide
    have hrefuses :
        (Lexeme.keyword notWord).refuses (between front (c.text ++ rest)).rest.head? = true := by
      obtain ⟨x, hx, hhead⟩ := c.head_text
      rw [hat.head, hhead]
      exact List.all_eq_true.mp hall x hx
    have hnot : (Pattern.group
        (Pattern.kw "Not" ++ Pattern.ref (.level .boolean 1))).Ends 23 true .normal
        (between front (c.text ++ rest)) .failed :=
      .group (.seq_of_failed (hat.skipped _ _ _)
        (.lexeme_of_none (hat.enter _ _ _) (scan_of_refuses hrefuses) 23)) rfl
    have hlevel : (Pattern.ref (.level .boolean 1)).Ends 24 true .normal
        (between front (c.text ++ rest)) (.matched (between (front ++ c.text) rest) (.one c.tree)) :=
      .rule (hat.enter _ _ _) (.first_of_failed hnot hitem)
    exact hlevel.mono (Nat.le_add_right 24 _)
  | not spelling behind spelling_mem inner ih =>
    have hstarts := isWord_not.startsVisibly spelling_mem
    refine ⟨Joint.startsVisibly_append hstarts _, fun front hfront rest hrest ↦ ?_⟩
    have hat := at_of_startsVisibly hstarts front (gap behind ++ (inner.text ++ rest))
    have hscan := isWord_not.scan spelling_mem hfront behind (inner.text ++ rest)
    have hword := Pattern.Ends.lexeme (hat.enter _ false .normal) hscan (24 + inner.text.length)
    have hinner := ih.ends (front ++ spelling) behind hrest
    have hgroup := Pattern.Ends.group (.seq (hat.skipped true _ _) hword hinner rfl) rfl
    have hlevel : (Pattern.ref (.level .boolean 1)).Ends (24 + inner.text.length + 1) true .normal
        (between front (spelling ++ (gap behind ++ (inner.text ++ rest))))
        (.matched (between (front ++ spelling ++ gap behind ++ inner.text) rest)
          (.one (tree (not spelling behind spelling_mem inner)))) :=
      .rule (hat.enter _ _ _) (.first_of_matched hgroup)
    have hdepth : 24 + inner.text.length + 1 ≤
        24 + (spelling ++ (gap behind ++ inner.text)).length := by
      simp only [gap, List.length_append, List.length_replicate]
      omega
    simp only [text, List.append_assoc] at hlevel ⊢
    exact hlevel.mono hdepth

end Negation

/-! Chains of words -/

/-- A word, the operand behind it, and the spaces around the word, one more on each side than the
numbers say. -/
structure WordLink (word : List Char) (α : Type) where
  spelling : List Char
  before : Nat
  behind : Nat
  operand : α
  spelling_mem : spelling ∈ spellings word

/-- Operands with a word between them. -/
structure WordChain (word : List Char) (α : Type) where
  first : α
  links : List (WordLink word α)

/-- The text of a link whose operand has such a text. -/
def WordLink.textWith {word : List Char} {α : Type} (f : α → List Char) (link : WordLink word α) :
    List Char :=
  gap link.before ++ (link.spelling ++ (gap link.behind ++ f link.operand))

namespace WordChain

variable {word : List Char} {α : Type}

def operands (chain : WordChain word α) : List α :=
  chain.first :: chain.links.map WordLink.operand

def textWith (f : α → List Char) (chain : WordChain word α) : List Char :=
  f chain.first ++ chain.links.flatMap (WordLink.textWith f)

def treeWith (f : α → Value) (chain : WordChain word α) : Value :=
  runOf (String.ofList word) (f chain.first) (chain.links.map fun link ↦ f link.operand)

variable {initials signs after : List Char} {text : α → List Char} {tree : α → Value}
  {depth k : Nat}

theorem isWritable_treeWith (h : ∀ a, (tree a).isWritable = true) (chain : WordChain word α) :
    (chain.treeWith tree).isWritable = true :=
  isWritable_runOf (h chain.first) (List.forall_mem_map.mpr fun link _ ↦ h link.operand)

theorem tab_not_mem_textWith (hword : IsWord word initials) (htext : ∀ a, '\t' ∉ text a)
    (chain : WordChain word α) : '\t' ∉ chain.textWith text := by
  simp only [textWith, WordLink.textWith, List.mem_append, List.mem_flatMap, not_or, not_exists,
    not_and]
  exact ⟨htext _, fun link _ ↦ ⟨tab_not_mem_spaces _, hword.no_tab _ link.spelling_mem,
    tab_not_mem_spaces _, htext _⟩⟩

theorem length_le_textWith (text : α → List Char) (chain : WordChain word α) {a : α}
    (ha : a ∈ chain.operands) : (text a).length ≤ (chain.textWith text).length := by
  rw [textWith, List.length_append]
  rcases List.mem_cons.mp ha with rfl | hmem
  · exact Nat.le_add_right _ _
  · obtain ⟨link, hlink, rfl⟩ := List.mem_map.mp hmem
    have hinside : (link.textWith text).Sublist (chain.links.flatMap (WordLink.textWith text)) := by
      rw [List.flatMap_def]
      exact List.sublist_flatten_of_mem (List.mem_map_of_mem hlink)
    have hlength := hinside.length_le
    simp only [WordLink.textWith, List.length_append] at hlength
    omega

/-- One of the signs comes next, whether there are links or not. -/
theorem apart_links (hword : IsWord word initials) (hinitials : initials ⊆ signs)
    (hafter : after ⊆ signs) (text : α → List Char) (links : List (WordLink word α))
    {rest : List Char} (hrest : Apart after rest) :
    Apart signs (links.flatMap (WordLink.textWith text) ++ rest) := by
  cases links with
  | nil => exact hrest.mono hafter
  | cons link links =>
    obtain ⟨x, hx, hhead⟩ := hword.exists_head link.spelling_mem
    obtain ⟨more, hspelling⟩ := List.head?_eq_some_iff.mp hhead
    rw [List.flatMap_cons, WordLink.textWith, hspelling]
    simp only [List.append_assoc]
    exact apart_gap (hinitials hx) link.before _

/-- Links continue a chain up to what cannot begin with the word. -/
theorem continues_links (hword : IsWord word initials) (hinitials : initials ⊆ signs)
    (hafter : after ⊆ signs) (hmisses : (Lexeme.keyword word).misses after = true)
    (links : List (WordLink word α))
    (hlinks : ∀ link ∈ links, IsOperand depth k signs (text link.operand) (tree link.operand))
    {rest : List Char} (hrest : Apart after rest) (front : List Char) :
    Continues depth (String.ofList word) (.lexeme (.keyword word)) (Pattern.ref (.level .boolean k))
      (between front (links.flatMap (WordLink.textWith text) ++ rest))
      (links.map fun link ↦ tree link.operand)
      (between (front ++ links.flatMap (WordLink.textWith text)) rest) := by
  induction links generalizing front with
  | nil =>
    rw [List.flatMap_nil, List.append_nil]
    exact .stop (Lexeme.ends_of_misses hmisses hrest.ahead _ _)
  | cons link links ih =>
    obtain ⟨hlink, hlinks⟩ := List.forall_mem_cons.mp hlinks
    have hrest' := apart_links hword hinitials hafter text links hrest
    have hsign := hword.ends link.spelling_mem depth link.before link.behind front
      (text link.operand ++ (links.flatMap (WordLink.textWith text) ++ rest))
    have hright := hlink.ends (front ++ gap link.before ++ link.spelling) link.behind hrest'
    have hmore := ih hlinks
      (front ++ gap link.before ++ link.spelling ++ gap link.behind ++ text link.operand)
    have hrest : (link :: links).flatMap (WordLink.textWith text) ++ rest = gap link.before ++
        (link.spelling ++ (gap link.behind ++
          (text link.operand ++ (links.flatMap (WordLink.textWith text) ++ rest)))) := by
      simp only [List.flatMap_cons, WordLink.textWith, List.append_assoc]
    have hfront : front ++ (link :: links).flatMap (WordLink.textWith text) =
        front ++ gap link.before ++ link.spelling ++ gap link.behind ++ text link.operand ++
          links.flatMap (WordLink.textWith text) := by
      simp only [List.flatMap_cons, WordLink.textWith, List.append_assoc]
    rw [hrest, hfront]
    refine .step hsign hright ?_ ?_ hmore
    · simp only [Cursor.between_offset, gap, List.length_append, List.length_replicate]
      omega
    · simp only [Cursor.between_rest, gap, List.length_append, List.length_replicate]
      omega

/-- A level joins the operands that the level below it reads. -/
theorem isOperand (hword : IsWord word initials) (hinitials : initials ⊆ signs)
    (hafter : after ⊆ signs) (hmisses : (Lexeme.keyword word).misses after = true)
    (hpattern : Ladder.boolean.pattern (k + 1) = .chain (Pattern.ref (.level .boolean k))
      (.lexeme (.keyword word)) (Pattern.ref (.level .boolean k)) none)
    (chain : WordChain word α)
    (hoperands : ∀ a ∈ chain.operands, IsOperand depth k signs (text a) (tree a)) :
    IsOperand (depth + 1) (k + 1) after (chain.textWith text) (chain.treeWith tree) := by
  obtain ⟨hfirst, hlinks⟩ := List.forall_mem_cons.mp hoperands
  rw [List.forall_mem_map] at hlinks
  refine ⟨Joint.startsVisibly_append hfirst.starts _, fun front hfront ↦ ?_⟩
  exact (hfirst.reads front hfront).level hpattern hfirst.starts
    (fun rest hrest ↦ apart_links hword hinitials hafter text chain.links hrest)
    (fun rest hrest ↦ continues_links hword hinitials hafter hmisses chain.links hlinks hrest _)
    (chained_runOf _ _ _)

end WordChain

/-! Conditions -/

/-- Comparisons with negations, joined by the word for both. -/
abbrev Conjunction := WordChain andWord Negation

namespace Conjunction

def text (c : Conjunction) : List Char := c.textWith Negation.text

def tree (c : Conjunction) : Value := c.treeWith Negation.tree

def holds (c : Conjunction) : Bool := c.operands.all Negation.holds

theorem isOperand (c : Conjunction) :
    IsOperand (26 + c.text.length) 3 ['O', 'o'] c.text c.tree := by
  have hoperands (n : Negation) (hn : n ∈ c.operands) :
      IsOperand (24 + c.text.length) 1 Comparison.initials n.text n.tree :=
    n.isOperand.mono (Nat.add_le_add_left (c.length_le_textWith Negation.text hn) 24)
  have hlevel : IsOperand (24 + c.text.length + 1) 2 ['O', 'o'] c.text c.tree :=
    WordChain.isOperand isWord_and (by decide) (by decide) (by decide) rfl c hoperands
  exact (hlevel.climb 1 (by decide)).mono (by omega)

end Conjunction

/-- Conjunctions, joined by the word for one of them. -/
abbrev Disjunction := WordChain orWord Conjunction

/-- The condition that is built of a tree. -/
def conditionFrom : Value → Node
  | .tokens t =>
    match t.items with
    | [op, v] => .condition .null op v
    | vs => conditionOf vs
  | v => .condition v .null .null

theorem isWritable_conditionOf (vs : List Value) (h : allWritable vs = true) :
    (conditionOf vs).isWritable = true := by
  induction vs using conditionOf.induct with
  | case1 => rfl
  | case2 v =>
    rw [allWritable, Bool.and_eq_true] at h
    rw [conditionOf, Node.isWritable, h.1]
    rfl
  | case3 v op vs ih =>
    rw [allWritable, allWritable, Bool.and_eq_true, Bool.and_eq_true] at h
    rw [conditionOf, Node.isWritable, h.1, Value.isWritable, ih h.2.2]
    rfl

theorem isWritable_conditionFrom {v : Value} (h : v.isWritable = true) :
    (conditionFrom v).isWritable = true := by
  unfold conditionFrom
  split
  · next t =>
    have hitems : allWritable t.items = true := by
      cases t
      rwa [Value.isWritable] at h
    split
    · next hpair =>
      rw [hpair, allWritable, allWritable, Bool.and_eq_true, Bool.and_eq_true] at hitems
      rw [Node.isWritable, hitems.2.1]
      rfl
    · exact isWritable_conditionOf _ hitems
  · rw [Node.isWritable, h]
    rfl

namespace Disjunction

def text (d : Disjunction) : List Char := d.textWith Conjunction.text

def tree (d : Disjunction) : Value := d.treeWith Conjunction.tree

def holds (d : Disjunction) : Bool := d.operands.any Conjunction.holds

theorem isOperand (d : Disjunction) : IsOperand (29 + d.text.length) 6 [] d.text d.tree := by
  have hoperands (c : Conjunction) (hc : c ∈ d.operands) :
      IsOperand (26 + d.text.length) 3 ['O', 'o'] c.text c.tree :=
    c.isOperand.mono (Nat.add_le_add_left (d.length_le_textWith Conjunction.text hc) 26)
  have hlevel : IsOperand (26 + d.text.length + 1) 4 [] d.text d.tree :=
    WordChain.isOperand isWord_or (by decide) (by decide) (by decide) rfl d hoperands
  exact (hlevel.climb 2 (by decide)).mono (by omega)

theorem tab_not_mem_text (d : Disjunction) : '\t' ∉ d.text :=
  WordChain.tab_not_mem_textWith isWord_or
    (WordChain.tab_not_mem_textWith isWord_and Negation.tab_not_mem_text) d

theorem buildCondition_tree (d : Disjunction) :
    buildCondition d.tree = .node (conditionFrom d.tree) := by
  obtain ⟨⟨n, conjuncts⟩, disjuncts⟩ := d
  rcases disjuncts with - | ⟨link, disjuncts⟩
  · rcases conjuncts with - | ⟨link, conjuncts⟩
    · cases n <;> rfl
    · rfl
  · rfl

/-- The whole text is read, as a condition that is built of the tree. -/
theorem readAll_text (d : Disjunction) :
    readAll .booleanExpression (String.ofList d.text) =
      .ok (.one (.node (conditionFrom d.tree))) := by
  have hoperand := d.isOperand
  have hreads : ReadsAt (29 + d.text.length + 1) .booleanExpression [] (Apart []) d.text
      (.node (conditionFrom d.tree)) := by
    intro rest hrest
    have hat := at_of_startsVisibly hoperand.starts [] rest
    have htree := (hoperand.reads [] rfl).ends hoperand.starts hrest false
    have hwritable : d.tree.isWritable = true := WordChain.isWritable_treeWith
      (WordChain.isWritable_treeWith Negation.isWritable_tree) d
    have hmake : Builder.condition.make (.one d.tree) = .node (conditionFrom d.tree) :=
      d.buildCondition_tree
    exact .rule (hat.enter _ _ _) (.build rfl htree
      (Outcome.built_node hmake (isWritable_conditionFrom hwritable) _))
  refine hreads.readAll_eq (apart_nil []) d.tab_not_mem_text ?_ rfl
  rw [depthBound]
  omega

end Disjunction

end VbaTrace.Grammar
