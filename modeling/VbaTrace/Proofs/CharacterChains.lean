import Mathlib.Data.List.Forall2
import VbaTrace.Engine.Scan
import VbaTrace.Proofs.ConstantExpressions
import VbaTrace.Proofs.IntegerLiterals

/-!
Texts that are written as the numbers of their characters. Such a text is one constant expression
(`reads_characters`), although the sign that joins the characters is also a suffix of numbers. A scan
finds this expression and nothing else (`readAll_characters`, `scan_of_found`), and its value is the
plain text (`gives_characters`).
-/

set_option autoImplicit false

namespace VbaTrace

namespace Grammar

open Cursor (between)

/-! One character -/

theorem length_toDigits_toNat (c : Char) :
    (Nat.toDigits 10 c.toNat).length ≤ Decimal.digitLimit := by
  have hlength : (Nat.toDigits 10 c.toNat).length ≤ 7 :=
    (Nat.length_toDigits_le_iff (by decide) (by decide)).mpr (Semantics.toNat_lt_pow c)
  exact Nat.le_trans hlength (by decide)

/-- The number of a character. -/
def characterCode (c : Char) : IntegerLiteral := .ofNat c.toNat (length_toDigits_toNat c)

/-- A character given by its number. -/
def characterText (c : Char) : List Char :=
  ['C', 'h', 'r', '('] ++ (Nat.toDigits 10 c.toNat ++ [')'])

theorem startsVisibly_characterText (c : Char) : startsVisibly (characterText c) = true := rfl

/-- The number is read up to the closing bracket. -/
theorem reads_characterCode (c : Char) :
    Reads 15 .exprConst [')'] (Nat.toDigits 10 c.toNat) (.int c.toNat) := by
  have hitem : Reads 11 .exprConstItem [')'] (characterCode c).text (.int (characterCode c).value) :=
    (characterCode c).reads_exprConstItem (endsInteger_of_all (by decide))
  have hlevel := hitem.item (l := .constant) (characterCode c).startsVisibly_text
  have hread := hlevel.exprConst (characterCode c).startsVisibly_text (by decide) (by decide)
  rwa [characterCode, IntegerLiteral.text_ofNat, IntegerLiteral.value_ofNat] at hread

/-- The word for a character, without the marks that may follow it. -/
theorem ends_chrWord (depth : Nat) (front rest : List Char) :
    (Pattern.anyCase "Chr" ++ .optional (.lexeme (.loneSign (.listed ['B', 'b', 'W', 'w']))) ++
        .optional (.lit "$")).Ends depth false Mode.normal.tighten
      (between front (['C', 'h', 'r'] ++ (['('] ++ rest)))
      (.matched (between (front ++ ['C', 'h', 'r']) (['('] ++ rest)) (.one (.text "Chr"))) := by
  have hword : (Pattern.anyCase "Chr").Ends depth false Mode.normal.tighten
      (between front (['C', 'h', 'r'] ++ (['('] ++ rest)))
      (.matched (between (front ++ ['C', 'h', 'r']) (['('] ++ rest)) (.one (.text "Chr"))) :=
    .lexeme rfl (Cursor.scan_caseless front _ (by decide) (by decide)) depth
  have hmissing (l : Lexeme) (hl : l.refuses (some '(') = true) :
      (Pattern.optional (.lexeme l)).Ends depth true Mode.normal.tighten
        (between (front ++ ['C', 'h', 'r']) (['('] ++ rest))
        (.matched (between (front ++ ['C', 'h', 'r']) (['('] ++ rest)) .empty) := by
    have hscan : l.scan (between (front ++ ['C', 'h', 'r']) (['('] ++ rest)) = none :=
      scan_of_refuses hl
    exact .optional_of_failed (enter_of_tight rfl _ _ _) (.lexeme_of_none rfl hscan depth)
  exact .seq rfl (.seq rfl hword (hmissing _ rfl) rfl) (hmissing _ rfl) rfl

/-- A bracket is read where it stands. -/
theorem ends_bracket {x : Char} (hx : isVisible x = true) (depth : Nat) (front rest : List Char) :
    (Pattern.lexeme (.exact [x])).Ends depth true .normal (between front ([x] ++ rest))
      (.matched (between (front ++ [x]) rest) (.one (.text (String.ofList [x])))) := by
  have hsign := ends_sign hx depth 0 front rest
  rwa [List.replicate_zero, List.append_nil] at hsign

def characterNode (c : Char) : Value := .node (.chr (.int c.toNat))

theorem isWritable_characterNode (c : Char) : (characterNode c).isWritable = true := by
  rw [characterNode, Value.isWritable, Node.isWritable, Value.isWritable]
  exact Semantics.isWritable_code c

theorem reads_chrConst (c : Char) (signs : List Char) :
    Reads 16 .chrConst signs (characterText c) (characterNode c) := by
  intro front rest _
  have hat := at_of_startsVisibly (startsVisibly_characterText c) front rest
  have htext : characterText c ++ rest =
      ['C', 'h', 'r'] ++ (['('] ++ (Nat.toDigits 10 c.toNat ++ ([')'] ++ rest))) := by
    simp [characterText]
  have hfront : front ++ characterText c =
      front ++ ['C', 'h', 'r'] ++ ['('] ++ Nat.toDigits 10 c.toNat ++ [')'] := by
    simp [characterText]
  have hword := ends_chrWord 15 front (Nat.toDigits 10 c.toNat ++ ([')'] ++ rest))
  have hopening := ends_bracket (x := '(') rfl 15 (front ++ ['C', 'h', 'r'])
    (Nat.toDigits 10 c.toNat ++ ([')'] ++ rest))
  have hcode := reads_characterCode c (front ++ ['C', 'h', 'r'] ++ ['(']) ([')'] ++ rest)
    (ahead_sign List.mem_cons_self 0 rest)
  have hclosing := ends_bracket (x := ')') rfl 15
    (front ++ ['C', 'h', 'r'] ++ ['('] ++ Nat.toDigits 10 c.toNat) rest
  rw [htext] at hat ⊢
  rw [hfront]
  refine .rule (hat.enter _ _ _) (.build (o := .matched _ (.one (.int c.toNat))) rfl ?_
    (Outcome.built_node rfl (isWritable_characterNode c) _))
  refine .seq rfl (.seq rfl (.drop (.seq rfl (.joined rfl hword rfl) hopening rfl) rfl) hcode rfl)
    (.drop hclosing rfl) rfl

/-! Chains -/

theorem allWritable_characterNodes (c : Char) (cs : List Char) :
    allWritable (characterNode c :: cs.map characterNode) = true :=
  allWritable_iff.mpr (List.forall_mem_map.mpr fun d (_ : d ∈ c :: cs) ↦ isWritable_characterNode d)

def characterJoint (c : Char) : Joint := ⟨'&', 1, 1, characterText c, characterNode c⟩

/-- Characters given by their numbers, with a sign between spaces before each but the first. -/
def charactersText (c : Char) (cs : List Char) : List Char :=
  [' ', '&', ' '].intercalate ((c :: cs).map characterText)

theorem charactersText_eq (c : Char) (cs : List Char) :
    charactersText c cs = characterText c ++ Joint.texts (cs.map characterJoint) := by
  rw [charactersText]
  induction cs generalizing c with
  | nil => simp [Joint.texts]
  | cons d cs ih =>
    rw [List.map_cons, List.map_cons, List.intercalate_cons_cons, ← List.map_cons, ih, List.map_cons,
      Joint.texts_cons]
    simp [characterJoint, Joint.text]

example : String.ofList (charactersText 'é' ['A', '\n']) = "Chr(233) & Chr(65) & Chr(10)" := by
  decide

theorem startsVisibly_charactersText (c : Char) (cs : List Char) :
    startsVisibly (charactersText c cs) = true := by
  rw [charactersText_eq]
  exact Joint.startsVisibly_append (startsVisibly_characterText c) _

theorem reads_characterLevel (c : Char) :
    Reads 19 (.level .constant 1) ['&'] (characterText c) (characterNode c) := by
  have hitem : Reads 17 .exprConstItem ['&'] (characterText c) (characterNode c) := by
    intro front rest hrest
    have hat := at_of_startsVisibly (startsVisibly_characterText c) front rest
    exact .rule (hat.enter _ _ _) (.first_of_matched (reads_chrConst c ['&'] front rest hrest))
  have hlevel := hitem.item (l := .constant) (startsVisibly_characterText c)
  exact hlevel.climb (startsVisibly_characterText c) 1 (by decide)

/-- A chain of characters is read as one concatenation. -/
theorem reads_characters (c : Char) (cs : List Char) :
    Reads 21 .exprConst [] (charactersText c cs)
      (operationOn .concatenate (characterNode c) (cs.map characterNode)) := by
  have hpattern : Ladder.constant.pattern 2 = .chain (Pattern.ref (.level .constant 1))
      (.lexeme (.exact ['&'])) (Pattern.ref (.level .constant 1))
      (some (.operation .concatenate)) := rfl
  have hjoints (j : Joint) (hj : j ∈ cs.map characterJoint) :
      j.sign = '&' ∧ j.IsRead 19 (.level .constant 1) ['&'] := by
    obtain ⟨d, -, rfl⟩ := List.mem_map.mp hj
    exact ⟨rfl, startsVisibly_characterText d, reads_characterLevel d⟩
  have hvalues : (cs.map characterJoint).map Joint.value = cs.map characterNode := List.map_map
  have hlevel := (reads_characterLevel c).joints hpattern rfl rfl (startsVisibly_characterText c)
    hjoints fun _ ↦ hvalues ▸ allWritable_characterNodes c cs
  rw [hvalues, ← charactersText_eq] at hlevel
  exact hlevel.exprConst (startsVisibly_charactersText c cs) (by decide) (by decide)

theorem tab_not_mem_charactersText (c : Char) (cs : List Char) : '\t' ∉ charactersText c cs := by
  have hone (d : Char) : '\t' ∉ characterText d := by
    have hdigits : '\t' ∉ Nat.toDigits 10 d.toNat :=
      fun hmem ↦ absurd (Nat.isDigit_of_mem_toDigits (by decide) (by decide) hmem) (by decide)
    simp [characterText, hdigits]
  have hjoints (j : Joint) (hj : j ∈ cs.map characterJoint) : j.sign ≠ '\t' ∧ '\t' ∉ j.operand := by
    obtain ⟨d, -, rfl⟩ := List.mem_map.mp hj
    have hsign : '&' ≠ '\t' := by decide
    exact ⟨hsign, hone d⟩
  rw [charactersText_eq, List.mem_append, not_or]
  exact ⟨hone c, Joint.tab_not_mem_texts hjoints⟩

/-- A chain of characters is read as a whole, and is all that is found in its text. -/
theorem readAll_characters (c : Char) (cs : List Char) :
    readAll .exprConst (String.ofList (charactersText c cs)) =
        .ok (.one (operationOn .concatenate (characterNode c) (cs.map characterNode))) ∧
      findAll .exprConst (String.ofList (charactersText c cs)) =
        ([.one (operationOn .concatenate (characterNode c) (cs.map characterNode))], none) := by
  have hdepth : 21 ≤ depthBound (charactersText c cs).length := by
    rw [depthBound]
    omega
  have hend : Rule.refuses none 8 .exprConst = true := by decide +kernel
  have htabs := tab_not_mem_charactersText c cs
  exact ⟨(reads_characters c cs).readAll_eq rfl htabs hdepth,
    (reads_characters c cs).findAll_eq rfl htabs hdepth (startsVisibly_charactersText c cs) hend
      (Nat.le_trans (by decide) hdepth)⟩

end Grammar

/-! Evaluation -/

namespace Semantics

open Grammar

/-- A chain of characters gives the text of these characters in every machine. -/
theorem gives_characters (rounds depth : Nat) (m : Machine) (c : Char) (cs : List Char) :
    Gives (evaluate rounds (depth + 2)) m
      (operationOn .concatenate (characterNode c) (cs.map characterNode)) (.ofChars (c :: cs)) := by
  have hcode (depth : Nat) (x : Char) :
      Gives (evaluate rounds (depth + 1)) m (characterNode x) (.ofChars [x]) :=
    evalOperand_node_iff.mpr ⟨isWritable_characterNode x, evalChr_of_code x⟩
  cases cs with
  | nil => exact hcode (depth + 1) c
  | cons d ds =>
    have hcodes : List.Forall₂ (Gives (evaluate rounds (depth + 1)) m)
        ((c :: d :: ds).map characterNode) (((c :: d :: ds).map fun x ↦ [x]).map Value.ofChars) := by
      rw [List.map_map, List.forall₂_map_left_iff, List.forall₂_map_right_iff, List.forall₂_same]
      exact fun x _ ↦ hcode depth x
    have hjoined := evalConcatenation_of_texts hcodes
    rw [← List.flatMap_def, List.flatMap_singleton'] at hjoined
    exact evalOperand_node_iff.mpr ⟨allWritable_characterNodes c (d :: ds), hjoined⟩

end Semantics

namespace Engine

open Grammar Semantics

/-- A scan of one expression finds it with its value. -/
theorem scan_of_found {code : String} {n : Node} {w : Value} {m : Machine}
    (hfound : findAll .exprConst code = ([.one (.node n)], none))
    (hvalue : Semantics.run (.node n) none m = .ok w m) :
    scan code m = .ok ([⟨n, w⟩], none) m := by
  have hreturned :
      (do return Except.ok (← Semantics.run (.node n) none) : Eval (Except Fault Value)) m =
        .ok (.ok w) m :=
    Eval.bind_of_ok hvalue _
  have hevaluated : evaluateFound [n] m = .ok ([⟨n, w⟩], none) m := by
    rw [evaluateFound, Eval.bind_of_ok (Eval.handle_of_ok hreturned _ _)]
    rfl
  rw [scan, hfound]
  change (evaluateFound [n] >>= _) m = _
  rw [Eval.bind_of_ok hevaluated]
  rfl

/-- Characters that are given by their numbers and joined are one constant expression. It evaluates to
the text of these characters in every machine, and a scan finds it, with this value, and nothing
else. -/
theorem scan_reveals_characters (c : Char) (cs : List Char) :
    ∃ n, readAll .exprConst (String.ofList (charactersText c cs)) = .ok (.one (.node n)) ∧
      ∀ m : Machine,
        Semantics.run (.node n) none m = .ok (.text (String.ofList (c :: cs))) m ∧
        scan (String.ofList (charactersText c cs)) m =
          .ok ([⟨n, .text (String.ofList (c :: cs))⟩], none) m := by
  obtain ⟨n, hn⟩ : ∃ n, operationOn .concatenate (characterNode c) (cs.map characterNode) =
      .node n := by
    cases cs with
    | nil => exact ⟨_, rfl⟩
    | cons d ds => exact ⟨_, rfl⟩
  obtain ⟨hread, hfound⟩ := readAll_characters c cs
  rw [hn] at hread hfound
  refine ⟨n, hread, fun m ↦ ?_⟩
  have hvalue : Semantics.run (.node n) none m = .ok (.text (String.ofList (c :: cs))) m := by
    have hgives := gives_characters roundLimit (depthLimit - 2) m c cs
    rw [hn] at hgives
    exact (evalOperand_node_iff.mp hgives).2
  exact ⟨hvalue, scan_of_found hfound hvalue⟩

end Engine

end VbaTrace
