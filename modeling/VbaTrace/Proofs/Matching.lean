import Mathlib.Tactic.SplitIfs
import VbaTrace.Grammar.Parse

/-!
Matching, from the parts of a pattern to the whole. A pattern ends in an outcome (`Pattern.Ends`) when
it ends so at some depth of nested rules and at every greater one, so that facts about parts hold at
the depth of the whole. Cursors are given by what lies before and behind them (`Cursor.between`): a
match moves a part of the text from one side to the other.
-/

set_option autoImplicit false

namespace VbaTrace.Grammar

/-! Cursors and blanks -/

/-- A character that is no blank of any kind. -/
def isVisible (x : Char) : Bool := !Blanks.inline.holds x && !Blanks.breaking.holds x

theorem Blanks.holds_of_isVisible {x : Char} (h : isVisible x = true) (b : Blanks) :
    b.holds x = false := by
  rw [isVisible, Bool.and_eq_true, Bool.not_eq_true', Bool.not_eq_true'] at h
  cases b with
  | inline => exact h.1
  | breaking => exact h.2

/-- The cursor stands before a character that is no blank, or at the end of the text. -/
structure Cursor.At (c : Cursor) (x : Option Char) : Prop where
  head : c.rest.head? = x
  visible : ∀ y ∈ x, isVisible y = true

section

variable {c : Cursor} {x : Option Char}

theorem skipWhile_of_head {p : Char → Bool} (h : c.rest.head?.any p = false) :
    c.skipWhile p = c := by
  obtain ⟨offset, before, rest⟩ := c
  change Cursor.skipWhile.go p offset before rest = _
  cases rest with
  | nil => rfl
  | cons y ys =>
    have hy : p y = false := h
    rw [Cursor.skipWhile.go, hy]
    rfl

theorem Cursor.At.skipWhile (hc : c.At x) (b : Blanks) : c.skipWhile b.holds = c := by
  refine skipWhile_of_head ?_
  rw [hc.head]
  cases x with
  | none => rfl
  | some y => exact b.holds_of_isVisible (hc.visible y rfl)

theorem Cursor.At.passBlanks (hc : c.At x) (lead : Lead) (mode : Mode) :
    passBlanks lead mode c = c := by
  unfold Grammar.passBlanks
  split_ifs
  · exact hc.skipWhile lead.blanks
  · rfl

theorem Cursor.At.enter (hc : c.At x) (p : Pattern) (skip : Bool) (mode : Mode) :
    enter p skip mode c = c := by
  unfold Grammar.enter
  split_ifs
  · exact hc.passBlanks p.lead mode
  · rfl

/-- Where blanks count, none are passed over. -/
theorem enter_of_tight {mode : Mode} (h : mode.tight = true) (p : Pattern) (skip : Bool)
    (c : Cursor) : enter p skip mode c = c := by
  rw [enter, passBlanks, h, Bool.not_true, Bool.and_false]
  exact ite_self c

theorem Cursor.At.skipped (hc : c.At x) (skip : Bool) (lead : Lead) (mode : Mode) :
    (if skip then Grammar.passBlanks lead mode c else c) = c := by
  split_ifs
  · exact hc.passBlanks lead mode
  · rfl

end

/-- All characters are ASCII ones. -/
def isAscii (w : List Char) : Bool := w.all fun x ↦ x.toNat < 128

namespace Cursor

/-- The cursor between what lies before it and the rest of the text. -/
def between (front rest : List Char) : Cursor :=
  ⟨front.length, front.getLast?, rest⟩

section

variable {front rest : List Char}

@[simp] theorem between_offset (front rest : List Char) :
    (between front rest).offset = front.length := rfl

@[simp] theorem between_rest (front rest : List Char) : (between front rest).rest = rest := rfl

theorem between_step (front : List Char) (x : Char) (rest : List Char) :
    between (front ++ [x]) rest = ⟨front.length + 1, some x, rest⟩ := by
  simp [between]

theorem skipWhile_between {p : Char → Bool} (front : List Char) {w : List Char}
    (hw : ∀ x ∈ w, p x = true) (hrest : rest.head?.any p = false) :
    (between front (w ++ rest)).skipWhile p = between (front ++ w) rest := by
  induction w generalizing front with
  | nil =>
    rw [List.nil_append, List.append_nil]
    exact skipWhile_of_head hrest
  | cons x w ih =>
    have hx : p x = true := hw x List.mem_cons_self
    have hstep : (between front (x :: (w ++ rest))).skipWhile p =
        (between (front ++ [x]) (w ++ rest)).skipWhile p := by
      rw [between_step]
      change skipWhile.go p front.length front.getLast? (x :: (w ++ rest)) = _
      rw [skipWhile.go, if_pos hx]
      rfl
    rw [List.cons_append, hstep, ih _ fun y hy ↦ hw y (List.mem_cons_of_mem x hy), List.append_assoc,
      List.singleton_append]

/-- Spaces are blanks of every kind. -/
theorem passBlanks_spaces (lead : Lead) (hskips : lead.skips = true) (n : Nat)
    (hrest : ∀ y ∈ rest.head?, isVisible y = true) :
    passBlanks lead .normal (between front (List.replicate n ' ' ++ rest)) =
      between (front ++ List.replicate n ' ') rest := by
  have hspaces : ∀ x ∈ List.replicate n ' ', lead.blanks.holds x = true := by
    intro x hx
    rw [List.eq_of_mem_replicate hx]
    cases lead.blanks <;> decide
  have hstop : rest.head?.any lead.blanks.holds = false := by
    cases hhead : rest.head? with
    | none => rfl
    | some y => exact lead.blanks.holds_of_isVisible (hrest y hhead)
  rw [passBlanks, hskips]
  exact skipWhile_between front hspaces hstop

theorem textTo_between (front w rest : List Char) :
    (between front (w ++ rest)).textTo (between (front ++ w) rest) = String.ofList w := by
  simp [textTo, between]

theorem exactMatch_between (front w rest : List Char) :
    exactMatch w (between front (w ++ rest)) = some (between (front ++ w) rest) := by
  induction w generalizing front with
  | nil => rw [List.nil_append, List.append_nil, exactMatch]
  | cons x w ih =>
    have hnext := ih (front ++ [x])
    rw [between_step, List.append_assoc, List.singleton_append] at hnext
    rw [exactMatch]
    exact (if_pos (beq_self_eq_true x)).trans hnext

/-- A word is matched in any case in which it is written. -/
theorem caselessMatch_between {word w : List Char} (front rest : List Char)
    (hascii : isAscii w = true) (hcase : w.map Char.toUpper = word.map Char.toUpper) :
    caselessMatch word (between front (w ++ rest)) = some (between (front ++ w) rest) := by
  induction word generalizing front w with
  | nil =>
    rw [List.map_eq_nil_iff.mp hcase, List.nil_append, List.append_nil, caselessMatch]
  | cons y word ih =>
    cases w with
    | nil => exact nomatch hcase
    | cons x w =>
      obtain ⟨hx, htail⟩ := List.cons.inj hcase
      rw [isAscii, List.all_cons, Bool.and_eq_true, decide_eq_true_eq] at hascii
      have hnext := ih (front ++ [x]) hascii.2 htail
      rw [between_step, List.append_assoc, List.singleton_append] at hnext
      have hagrees : (if x.toNat < 128 then x.toUpper == y.toUpper
          else Text.upperChar x == [y.toUpper]) = true := by
        rw [if_pos hascii.1, hx, beq_self_eq_true]
      rw [caselessMatch]
      exact (if_pos hagrees).trans hnext

theorem scan_exact (front w rest : List Char) :
    (Lexeme.exact w).scan (between front (w ++ rest)) =
      some (between (front ++ w) rest, some (String.ofList w)) := by
  rw [Lexeme.scan, exactMatch_between]
  rfl

theorem scan_caseless (front rest : List Char) {word w : List Char}
    (hascii : isAscii w = true) (hcase : w.map Char.toUpper = word.map Char.toUpper) :
    (Lexeme.caseless word).scan (between front (w ++ rest)) =
      some (between (front ++ w) rest, some (String.ofList word)) := by
  rw [Lexeme.scan, caselessMatch_between front rest hascii hcase]
  rfl

/-- A keyword is read where nothing touches it. -/
theorem scan_keyword {word w : List Char} (hascii : isAscii w = true)
    (hcase : w.map Char.toUpper = word.map Char.toUpper)
    (hfront : front.getLast?.any touchesKeyword = false)
    (hrest : rest.head?.any touchesKeyword = false) :
    (Lexeme.keyword word).scan (between front (w ++ rest)) =
      some (between (front ++ w) rest, some (String.ofList word)) := by
  have hfree : ¬((between front (w ++ rest)).before.any touchesKeyword ||
      (between (front ++ w) rest).rest.head?.any touchesKeyword) = true := by
    rw [between_rest, hrest, Bool.or_false]
    exact Bool.eq_false_iff.mp hfront
  rw [Lexeme.scan, caselessMatch_between front rest hascii hcase]
  exact if_neg hfree

end

end Cursor

/-! Patterns -/

namespace Pattern

/-- The pattern ends so at this depth of nested rules and at every greater one. -/
def Ends (depth : Nat) (p : Pattern) (skip : Bool) (mode : Mode) (c : Cursor) (o : Outcome) :
    Prop :=
  ∀ n, depth ≤ n → p.run (m := Id) (runRule n) skip mode c = o

namespace Ends

variable {depth : Nat} {p a b : Pattern} {skip : Bool} {mode : Mode} {c d e : Cursor} {t : Tokens}
  {o o' : Outcome}

theorem mono (h : p.Ends depth skip mode c o) {deeper : Nat} (hle : depth ≤ deeper) :
    p.Ends deeper skip mode c o :=
  fun n hn ↦ h n (Nat.le_trans hle hn)

/-! In each of these, the first hypothesis tells where the part begins, and the last one, if there is
one about outcomes, what becomes of the outcome of the part. -/

theorem rule {r : Rule} (henter : enter (.rule r) skip mode c = d)
    (h : (ofRule r).Ends depth false mode d o) : (rule r).Ends (depth + 1) skip mode c o := by
  intro n hn
  obtain ⟨n, rfl⟩ := Nat.exists_eq_add_of_le' (Nat.lt_of_lt_of_le depth.succ_pos hn)
  rw [Pattern.run, henter]
  exact h n (Nat.le_of_succ_le_succ hn)

theorem lexeme {l : Lexeme} {s : String} (henter : enter (.lexeme l) skip mode c = d)
    (h : l.scan d = some (e, some s)) (depth : Nat) :
    (lexeme l).Ends depth skip mode c (.matched e (.one (.text s))) := by
  intro n _
  rw [Pattern.run, henter, h]
  rfl

theorem lexeme_of_none {l : Lexeme} (henter : enter (.lexeme l) skip mode c = d)
    (h : l.scan d = none) (depth : Nat) : (Pattern.lexeme l).Ends depth skip mode c .failed := by
  intro n _
  rw [Pattern.run, henter, h]
  rfl

theorem seq (hskip : (if skip then passBlanks a.lead mode c else c) = d)
    (ha : a.Ends depth false mode d (.matched e t)) (hb : b.Ends depth true mode e o)
    (ho : o.mapTokens t.append = o') : (seq a b).Ends depth skip mode c o' := by
  intro n hn
  rw [run_seq_of_matched (hskip ▸ ha n hn), hb n hn, ho]

theorem seq_of_failed (hskip : (if skip then passBlanks a.lead mode c else c) = d)
    (ha : a.Ends depth false mode d .failed) :
    (Pattern.seq a b).Ends depth skip mode c .failed := by
  intro n hn
  rw [Pattern.run, hskip, ha n hn]
  rfl

theorem seq_of_faulty {f : Fault} (hskip : (if skip then passBlanks a.lead mode c else c) = d)
    (ha : a.Ends depth false mode d (.faulty f)) :
    (Pattern.seq a b).Ends depth skip mode c (.faulty f) := by
  intro n hn
  rw [Pattern.run, hskip, ha n hn]
  rfl

theorem optional_of_matched (henter : enter p skip mode c = d)
    (h : p.Ends depth false mode d (.matched e t)) :
    (optional p).Ends depth skip mode c (.matched e t) := by
  intro n hn
  rw [Pattern.run, henter, h n hn]
  rfl

theorem optional_of_failed (henter : enter p skip mode c = d)
    (h : p.Ends depth false mode d .failed) :
    (optional p).Ends depth skip mode c (.matched d .empty) := by
  intro n hn
  rw [Pattern.run, henter, h n hn]
  rfl

theorem joined (hskip : (if skip then passBlanks { p.lead with skips := true } mode c else c) = d)
    (h : p.Ends depth false mode.tighten d o)
    (ho : o.mapTokens (fun t ↦ .one (.text (joinedText t.items))) = o') :
    (joined p).Ends depth skip mode c o' := by
  intro n hn
  rw [Pattern.run, hskip, h n hn]
  exact ho

/-! These begin where their parts do. -/

theorem first_of_matched (ha : a.Ends depth true mode c (.matched d t)) :
    (first a b).Ends depth skip mode c (.matched d t) := by
  intro n hn
  rw [Pattern.run, ha n hn]
  rfl

theorem first_of_failed (ha : a.Ends depth true mode c .failed)
    (hb : b.Ends depth true mode c o) : (first a b).Ends depth skip mode c o := by
  intro n hn
  rw [Pattern.run, ha n hn]
  exact hb n hn

theorem absent_of_matched (h : p.Ends depth true mode.look c (.matched d t)) :
    (absent p).Ends depth skip mode c .failed := by
  intro n hn
  rw [Pattern.run, h n hn]
  rfl

theorem absent_of_failed (h : p.Ends depth true mode.look c .failed) :
    (absent p).Ends depth skip mode c (.matched c .empty) := by
  intro n hn
  rw [Pattern.run, h n hn]
  rfl

theorem drop (h : p.Ends depth skip mode c o) (ho : o.mapTokens (fun _ ↦ .empty) = o') :
    (drop p).Ends depth skip mode c o' := by
  intro n hn
  rw [Pattern.run, h n hn]
  exact ho

theorem group (h : p.Ends depth skip mode c o)
    (ho : o.mapTokens (fun t ↦ .one (.tokens t)) = o') : (group p).Ends depth skip mode c o' := by
  intro n hn
  rw [Pattern.run, h n hn]
  exact ho

theorem build {b : Builder} (hmode : mode.builds = true) (h : p.Ends depth skip mode c o)
    (ho : o.built b = o') : (build b p).Ends depth skip mode c o' := by
  intro n hn
  rw [Pattern.run, h n hn, ← ho]
  exact if_pos hmode

end Ends

end Pattern

/-- A builder that gives one value turns the tokens of a match into it. -/
theorem Outcome.built_of_apply {b : Builder} {t : Tokens} {v : Value} (h : b.apply t = .one v)
    (c : Cursor) : (matched c t).built b = .matched c (.one v) := by
  rw [built, h]
  rfl

theorem Outcome.built_of_make {b : Builder} (hquiet : b.isLogged = false) {t : Tokens} {v : Value}
    (h : b.make t = .one v) (c : Cursor) : (matched c t).built b = .matched c (.one v) :=
  built_of_apply ((Builder.apply_of_not_isLogged hquiet t).trans h) c

theorem Outcome.built_node {b : Builder} {t : Tokens} {n : Node} (h : b.make t = .node n)
    (hwritable : n.isWritable = true) (c : Cursor) :
    (matched c t).built b = .matched c (.one (.node n)) :=
  built_of_apply (Builder.apply_node h hwritable) c

end VbaTrace.Grammar
