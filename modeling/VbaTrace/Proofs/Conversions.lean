import VbaTrace.Proofs.ConstantExpressions
import VbaTrace.Proofs.IntegerLiterals

/-!
Whole numbers as texts and back. The hexadecimal digits of a number (`hexDigits`) denote it
(`ofDigits_hexDigits`), and behind the mark `&H` they are one literal (`IntegerLiteral.ofHex`). Three
readers know the mark: the routine that converts to a long number (`cLng_marked`), the rule for
integers (`IntegerLiteral.readAll_integer`), and the character with a number that is given as a text
(`charOfLiteral_marked`). All find the number again, whatever its size; but what a routine gives has
to be written, so it fails on a number with more than `digitLimit` decimal digits.

The decimal text of a number is read back by the conversion to an integer. The conversion to a long
number takes a text of one character for that character, whatever it is, and so misses the numbers of
one digit (`cLng_writeInt`).
-/

set_option autoImplicit false

namespace VbaTrace

/-! Upper case and replacement -/

namespace Text

theorem upper_ofList {cs : List Char} {f : Char → Char} (h : ∀ c ∈ cs, upperChar c = [f c]) :
    upper (String.ofList cs) = String.ofList (cs.map f) := by
  have hmap : cs.flatMap upperChar = cs.map f := by
    rw [List.map_eq_flatMap]
    exact List.flatMap_congr h
  rw [upper, upperChars, String.toList_ofList, hmap]

/-- A pattern is not found where its first character is not. -/
theorem replaceFrom_of_not_mem {p : Char} {cs : List Char} (h : p ∉ cs) (ps new : List Char) :
    replaceFrom (p :: ps) new 0 cs = cs := by
  induction cs with
  | nil => rfl
  | cons c cs ih =>
    rw [List.mem_cons, not_or] at h
    have hfront : ¬(p :: ps).isPrefixOf (c :: cs) = true := by
      rw [List.isPrefixOf_cons_cons, beq_false_of_ne h.1]
      exact nofun
    rw [replaceFrom, if_neg hfront, ih h.2]

/-- A pattern at the front is replaced, and nowhere else if its first character is not there. -/
theorem replaceAll_front {p : Char} {cs : List Char} (h : p ∉ cs) (ps new : List Char) :
    replaceAll (p :: ps) new (p :: ps ++ cs) = new ++ cs := by
  have hfront : (p :: ps).isPrefixOf (p :: (ps ++ cs)) = true :=
    List.isPrefixOf_iff_prefix.mpr (List.prefix_append (p :: ps) cs)
  have hskip (qs : List Char) : replaceFrom (p :: ps) new qs.length (qs ++ cs) = cs := by
    induction qs with
    | nil => exact replaceFrom_of_not_mem h ps new
    | cons q qs ih => rw [List.cons_append, List.length_cons, replaceFrom, ih]
  rw [replaceAll, if_neg nofun, List.cons_append, replaceFrom, if_pos hfront, List.length_cons,
    Nat.add_sub_cancel, hskip]

end Text

/-! Hexadecimal digits -/

namespace Grammar

/-- What holds of the sixteen digits holds of all digits of a number. -/
theorem forall_mem_toDigits {p : Char → Bool} (h : ∀ d < 16, p (Nat.digitChar d) = true) (n : Nat) :
    ∀ c ∈ Nat.toDigits 16 n, p c = true := by
  induction n using Nat.strongRecOn with
  | ind n ih =>
    rw [Nat.toDigits_eq_if (by decide)]
    split_ifs with hn
    · intro c hc
      rw [List.mem_singleton.mp hc]
      exact h n hn
    · intro c hc
      rcases List.mem_append.mp hc with hc | hc
      · exact ih (n / 16) (by omega) c hc
      · rw [List.mem_singleton.mp hc]
        exact h (n % 16) (Nat.mod_lt n (by decide))

/-- The hexadecimal digits of a number, in upper case. -/
def hexDigits (n : Nat) : List Char :=
  (Nat.toDigits 16 n).map Char.toUpper

theorem forall_mem_hexDigits {p : Char → Bool} (n : Nat)
    (h : ∀ d < 16, p (Nat.digitChar d).toUpper = true) : ∀ c ∈ hexDigits n, p c = true := by
  intro c hc
  obtain ⟨d, hd, rfl⟩ := List.mem_map.mp hc
  exact forall_mem_toDigits (p := fun c ↦ p c.toUpper) h n d hd

theorem hexDigits_ne_nil (n : Nat) : hexDigits n ≠ [] := by
  rw [hexDigits, Ne, List.map_eq_nil_iff]
  exact Nat.toDigits_ne_nil

theorem isDigit_of_mem_hexDigits {n : Nat} {c : Char} (hc : c ∈ hexDigits n) :
    Base.hexadecimal.isDigit c = true :=
  forall_mem_hexDigits n (by decide) c hc

/-- The digits of a number denote it. -/
theorem ofDigits_hexDigits (n : Nat) :
    Decimal.ofDigits 16 ((hexDigits n).map digitValue) = n := by
  have hdigit : ∀ d < 16, digitValue (Nat.digitChar d).toUpper = d := by decide
  induction n using Nat.strongRecOn with
  | ind n ih =>
    rw [hexDigits, List.map_map, Nat.toDigits_eq_if (by decide)]
    split_ifs with hn
    · have hone : Decimal.ofDigits 16 [digitValue (Nat.digitChar n).toUpper] =
          digitValue (Nat.digitChar n).toUpper := Nat.zero_add _
      exact hone.trans (hdigit n hn)
    · have hmore := ih (n / 16) (by omega)
      rw [hexDigits, List.map_map] at hmore
      rw [List.map_append, List.map_singleton, Decimal.ofDigits_concat, hmore]
      change n / 16 * 16 + digitValue (Nat.digitChar (n % 16)).toUpper = n
      rw [hdigit (n % 16) (Nat.mod_lt n (by decide))]
      omega

theorem hexText_eq (n : Nat) : Library.hexText n = String.ofList (hexDigits n) := by
  have hupper : ∀ c ∈ Nat.toDigits 16 n, (Text.upperChar c == [c.toUpper]) = true :=
    forall_mem_toDigits (by decide) n
  have hnonnegative : ¬(n : Int) < 0 := by omega
  rw [Library.hexText, if_neg hnonnegative, Int.natAbs_natCast, Library.digitsIn,
    Text.upper_ofList fun c hc ↦ eq_of_beq (hupper c hc), String.empty_append]
  rfl

/-- The digits behind the mark. -/
theorem mark_append_hexText (n : Nat) :
    "&H" ++ Library.hexText n = String.ofList ('&' :: 'H' :: hexDigits n) := by
  rw [hexText_eq]
  exact (String.ofList_append : String.ofList (['&', 'H'] ++ hexDigits n) = _).symm

/-! The literal -/

namespace IntegerLiteral

/-- A number in base sixteen, behind the mark in upper case and without a suffix. -/
def ofHex (n : Nat) : IntegerLiteral where
  base := .hexadecimal
  lead := ['&', 'H']
  digits := hexDigits n
  suffix := none
  lead_mem := List.mem_cons_of_mem _ List.mem_cons_self
  digits_ne_nil := hexDigits_ne_nil n
  digits_valid _ hc := isDigit_of_mem_hexDigits hc
  suffix_mem := mem_suffixSigns_of_none
  digits_short h := absurd h (by decide)

theorem text_ofHex (n : Nat) : (ofHex n).text = '&' :: 'H' :: hexDigits n :=
  List.append_nil _

theorem value_ofHex (n : Nat) : (ofHex n).value = n := by
  have hmagnitude : (ofHex n).magnitude = n := ofDigits_hexDigits n
  rw [value, hmagnitude]
  rfl

variable (t : IntegerLiteral)

theorem readsAt_integer (front : List Char) :
    ReadsAt 10 .integer front IntegerEnds t.text (.int t.value) := by
  intro rest hrest
  have hat := at_of_startsVisibly t.startsVisibly_text front rest
  exact .rule (hat.enter _ _ _) (t.ends_integer hrest front false)

theorem runRule_integer :
    runRule (depthFor (String.ofList t.text)) .integer .normal
        (enter (.rule .integer) true .normal (startOf (String.ofList t.text))) =
      .matched (Cursor.between t.text []) (.one (.int t.value)) := by
  have hdepth : 10 ≤ depthBound t.text.length := by
    rw [depthBound]
    omega
  exact (t.readsAt_integer []).runRule_eq ((ahead_nil []).integerEnds nofun) t.tab_not_mem_text hdepth

/-- A literal is read as its number, and nothing of it is left. -/
theorem readAll_integer : readAll .integer (String.ofList t.text) = .ok (.one (.int t.value)) :=
  readAll_of_matched rfl t.runRule_integer rfl

end IntegerLiteral

end Grammar

/-! The readers of the mark -/

theorem Text.trim_of_ends {cs : List Char} (hhead : cs.head?.any isBlank = false)
    (hlast : cs.getLast?.any isBlank = false) : trim cs = cs :=
  dropWhile_of_ends hhead hlast

/-- Behind any front, the last character of a hexadecimal text is one of its digits. -/
theorem Grammar.getLast?_hexDigits {p : Char → Bool} (front : List Char) (n : Nat)
    (h : ∀ d < 16, p (Nat.digitChar d).toUpper = false) :
    (front ++ hexDigits n).getLast?.any p = false := by
  have hdigits := forall_mem_hexDigits (p := fun c ↦ !p c) n fun d hd ↦ by rw [h d hd]; rfl
  have hne := hexDigits_ne_nil n
  rw [List.getLast?_append, List.getLast?_eq_some_getLast hne]
  exact (Bool.not_eq_true' _).mp (hdigits _ (List.getLast_mem hne))

namespace Semantics

open Grammar

theorem charOfLiteral_marked (c : Char) :
    charOfLiteral ("&H" ++ Library.hexText c.toNat) = .ofChars [c] := by
  have htrimmed : Text.trim ('&' :: 'H' :: hexDigits c.toNat) = '&' :: 'H' :: hexDigits c.toNat :=
    Text.trim_of_ends rfl (getLast?_hexDigits ['&', 'H'] c.toNat (by decide))
  have hread := readFront_of_matched rfl (IntegerLiteral.ofHex c.toNat).runRule_integer
  rw [IntegerLiteral.text_ofHex, IntegerLiteral.value_ofHex] at hread
  unfold charOfLiteral
  rw [mark_append_hexText, Text.trimmed, String.toList_ofList, htrimmed, hread]
  exact charText_toNat c

/-- The character with a number is found by the hexadecimal text of the number. -/
theorem evalChr_marked (evaluate : Evaluator) (m : Machine) (c : Char) :
    evalChr evaluate (.text ("&H" ++ Library.hexText c.toNat)) m = .ok (.ofChars [c]) m := by
  have hundotted : '.' ∉ ("&H" ++ Library.hexText c.toNat).toList := by
    rw [mark_append_hexText, String.toList_ofList]
    simp only [List.mem_cons, not_or]
    exact ⟨by decide, by decide, fun hmem ↦ absurd (isDigit_of_mem_hexDigits hmem) (by decide)⟩
  have hgives : Gives evaluate m (.text ("&H" ++ Library.hexText c.toNat))
      (.text ("&H" ++ Library.hexText c.toNat)) := gives_undotted hundotted
  rw [evalChr, Eval.bind_of_ok hgives]
  change (pure (charOfLiteral ("&H" ++ Library.hexText c.toNat)) : Eval Value) m = _
  rw [charOfLiteral_marked]
  rfl

end Semantics

namespace Library

open Grammar

theorem hexRun_of_isDigit {cs : List Char} (hne : cs ≠ [])
    (h : ∀ c ∈ cs, Base.hexadecimal.isDigit c = true) : hexRun cs = some (cs.map digitValue) := by
  induction cs with
  | nil => exact absurd rfl hne
  | cons c cs ih =>
    have hc : Decimal.baseDigit? 16 c = some (digitValue c) :=
      Base.baseDigit?_of_isDigit (h c List.mem_cons_self)
    have hcs (d : Char) (hd : d ∈ cs) := h d (List.mem_cons_of_mem c hd)
    cases cs with
    | nil =>
      rw [hexRun, hc]
      rfl
    | cons d cs =>
      have hunderscore (ds : List Char) (heq : d :: cs = '_' :: ds) : False := by
        have hd := hcs d List.mem_cons_self
        rw [(List.cons.inj heq).1] at hd
        exact absurd hd (by decide)
      rw [hexRun, hc, ih nofun hcs]
      · rfl
      · exact nofun
      · exact hunderscore

theorem readHex?_hexDigits (n : Nat) :
    readHex? (String.ofList ('0' :: 'x' :: hexDigits n)) = some (n : Int) := by
  have htrimmed : Decimal.trimSpace ('0' :: 'x' :: hexDigits n) = '0' :: 'x' :: hexDigits n :=
    Decimal.trimSpace_of_ends rfl (getLast?_hexDigits ['0', 'x'] n (by decide))
  have hrun := hexRun_of_isDigit (hexDigits_ne_nil n) fun _ hc ↦ isDigit_of_mem_hexDigits hc
  rw [readHex?, String.toList_ofList, htrimmed]
  split
  · next cs heq =>
    have hmem : '_' ∈ hexDigits n := by
      rw [(List.cons.inj (List.cons.inj heq).2).2]
      exact List.mem_cons_self
    exact absurd (isDigit_of_mem_hexDigits hmem) (by decide)
  · next cs _ heq =>
    rw [← (List.cons.inj (List.cons.inj heq).2).2, hrun, Option.map_some, ofDigits_hexDigits]
  · next hother => exact absurd rfl (hother (hexDigits n))

theorem hexMark_eq : hexMark = String.ofList ['&', 'H'] := rfl

/-- The mark is replaced and the digits are read. -/
theorem unmarked_marked (n : Nat) : unmarked ("&H" ++ hexText n) = .ok (.int n) := by
  have hstays : ∀ c ∈ '&' :: 'H' :: hexDigits n, (Text.upperChar c == [c]) = true := by
    intro c hc
    simp only [List.mem_cons] at hc
    rcases hc with rfl | rfl | hc
    · decide
    · decide
    · exact forall_mem_hexDigits (p := fun c ↦ Text.upperChar c == [c]) n (by decide) c hc
  have hupper : Text.upper (String.ofList ('&' :: 'H' :: hexDigits n)) =
      String.ofList ('&' :: 'H' :: hexDigits n) := by
    rw [Text.upper_ofList (f := id) fun c hc ↦ eq_of_beq (hstays c hc), List.map_id]
  have hmark : '&' ∉ hexDigits n :=
    fun hmem ↦ absurd (isDigit_of_mem_hexDigits hmem) (by decide)
  have hreplaced : Text.replace hexMark "0x" (String.ofList ('&' :: 'H' :: hexDigits n)) =
      String.ofList ('0' :: 'x' :: hexDigits n) := by
    rw [Text.replace, hexMark_eq, String.toList_ofList, String.toList_ofList, String.toList_ofList]
    exact congrArg String.ofList (Text.replaceAll_front hmark ['H'] ['0', 'x'])
  have hstarts : Text.startsWith hexMark (String.ofList ('&' :: 'H' :: hexDigits n)) = true := by
    rw [Text.startsWith, String.toList_ofList, hexMark_eq, String.toList_ofList]
    exact List.isPrefixOf_iff_prefix.mpr (List.prefix_append ['&', 'H'] (hexDigits n))
  rw [mark_append_hexText, unmarked, hupper, if_pos hstarts, hreplaced, readHex?_hexDigits]

theorem cLng_marked (n : Nat) : cLng (.text ("&H" ++ hexText n)) = .ok (.int n) := by
  rw [cLng, unmarked_marked]
  rfl

/-! Decimal texts -/

/-- A sign and digits, none of which are part of the mark. -/
theorem forall_mem_writeInt {p : Char → Bool} (hsign : p '-' = true)
    (hdigits : ∀ d < 10, p (Nat.digitChar d) = true) (n : Int) :
    ∀ c ∈ (Decimal.writeInt n).toList, p c = true := by
  intro c hc
  rw [Decimal.writeInt_eq, String.toList_ofList] at hc
  rcases List.mem_append.mp hc with hc | hc
  · split_ifs at hc
    · rwa [List.mem_singleton.mp hc]
    · exact nomatch hc
  · have hdigit := Nat.isDigit_of_mem_toDigits (by decide) (by decide) hc
    have hascii : ∀ k < 128, (Char.ofNat k).isDigit = true →
        ∃ d < 10, Char.ofNat k = Nat.digitChar d := by
      decide
    obtain ⟨d, hd, rfl⟩ := Text.of_ascii
      (P := fun c ↦ c.isDigit = true → ∃ d < 10, c = Nat.digitChar d) hascii
      (Text.toNat_lt_of_isDigit hdigit) hdigit
    exact hdigits d hd

theorem unmarked_writeInt (n : Int) :
    unmarked (Decimal.writeInt n) = .ok (.text (Decimal.writeInt n)) := by
  have hstays := forall_mem_writeInt (p := fun c ↦ Text.upperChar c == [c]) (by decide) (by decide) n
  have hupper : Text.upper (Decimal.writeInt n) = Decimal.writeInt n := by
    have hsame := Text.upper_ofList (f := id) fun c hc ↦ eq_of_beq (hstays c hc)
    rwa [List.map_id, String.ofList_toList] at hsame
  have hstarts : ¬Text.startsWith hexMark (Decimal.writeInt n) = true := by
    rw [Text.startsWith, hexMark_eq, String.toList_ofList, List.isPrefixOf_iff_prefix]
    intro hprefix
    have hmem := hprefix.subset List.mem_cons_self
    exact absurd (forall_mem_writeInt (p := (· != '&')) (by decide) (by decide) n '&' hmem)
      (by decide)
  rw [unmarked, hupper, if_neg hstarts]

section

variable {s : String} (hs : unmarked s = .ok (.text s))
include hs

theorem cLng_of_single {c : Char} (hc : s.toList = [c]) : cLng (.text s) = .ok (.int c.toNat) := by
  rw [cLng, hs]
  dsimp only [bind, Except.bind]
  rw [hc]
  rfl

theorem cLng_of_toInt (hc : ∀ c, s.toList ≠ [c]) {n : Int} (hn : (Value.text s).toInt = .ok n) :
    cLng (.text s) = .ok (.int n) := by
  rw [cLng, hs]
  dsimp only [bind, Except.bind]
  split
  · next c heq => exact absurd heq (hc c)
  · rw [hn]
    rfl

end

/-- A number of one digit is taken for the character that it is written with, and all others are read
back. -/
theorem cLng_writeInt {n : Int} (hn : Decimal.isWritable n = true) :
    cLng (.text (Decimal.writeInt n)) =
      .ok (.int (if 0 ≤ n ∧ n ≤ 9 then 48 + n else n)) := by
  have hread : (Value.text (Decimal.writeInt n)).toInt = .ok n := by
    rw [Value.toInt, Decimal.readInt?_writeInt hn]
  have htext : (Decimal.writeInt n).toList =
      (if n < 0 then ['-'] else []) ++ Nat.toDigits 10 n.natAbs := by
    rw [Decimal.writeInt_eq, String.toList_ofList]
  split_ifs with hdigit
  · have hcode : ∀ d < 10, (Nat.digitChar d).toNat = 48 + d := by decide
    have hsmall : n.natAbs < 10 := by omega
    have hone : (Decimal.writeInt n).toList = [Nat.digitChar n.natAbs] := by
      rw [htext, if_neg (by omega), Nat.toDigits_of_lt_base hsmall]
      rfl
    have hvalue : ((48 + n.natAbs : Nat) : Int) = 48 + n := by omega
    rw [cLng_of_single (unmarked_writeInt n) hone, hcode n.natAbs hsmall, hvalue]
  · refine cLng_of_toInt (unmarked_writeInt n) (fun c heq ↦ ?_) hread
    have hlength := congrArg List.length (htext.symm.trans heq)
    have hdigits : 0 < (Nat.toDigits 10 n.natAbs).length := List.length_pos_iff.mpr Nat.toDigits_ne_nil
    by_cases hnegative : n < 0
    · rw [if_pos hnegative] at hlength
      simp only [List.length_append, List.length_cons, List.length_nil] at hlength
      omega
    · have hlarge := (Nat.length_toDigits_le_iff (b := 10) (n := n.natAbs) (k := 1) (by decide)
        (by decide)).mp
      rw [if_neg hnegative, List.nil_append, List.length_singleton] at hlength
      have hlt := hlarge (Nat.le_of_eq hlength)
      omega

end Library

/-! Calls -/

namespace Library

variable {h : Heap} {v w : Value}

theorem lenient_of_ok {f : Value → Answer} (hf : f (h.opened v) = .ok w) :
    lenient f h [v] = recorded h w := by
  change recorded h (orEmpty (f (h.opened v))) = _
  rw [hf]
  rfl

theorem asText_of_ok {s : String} (hs : textOf h v = .ok s) : asText h [v] = .ok (.text s) := by
  change (textOf h v >>= fun s ↦ pure (Value.text s) : Answer) = _
  rw [hs]
  rfl

theorem int_of_ok {n : Int} (hn : (h.opened v).toInt = .ok n) :
    Library.int h [v] = recorded h (.int n) := by
  unfold Library.int
  dsimp only [bind, Except.bind, require, argument]
  simp only [List.isEmpty_cons, Bool.not_false, if_true, List.getElem?_cons_zero, hn]

/-- A whole number is given if it can be written. -/
theorem recorded_int (h : Heap) (n : Int) :
    recorded h (.int n) = if Decimal.isWritable n then .ok (.int n) else .error .wrongValue :=
  rfl

end Library

namespace Routine

open Library

variable (evaluate : Evaluator) (m : Machine)

/-- A routine without effects leaves the machine as it is. -/
theorem call_of_answer {r : Routine} {args : List Value} {a : Answer}
    (h : answer? r m.heap args = some a) :
    r.call evaluate (some args) m = Eval.ofExcept a m := by
  unfold Routine.call
  split
  · exact nomatch h
  · exact nomatch h
  · exact nomatch h
  · exact nomatch h
  · dsimp only
    split
    · exact nomatch h
    · exact nomatch h
    · exact nomatch h
    · exact nomatch h
    · exact nomatch h
    · exact nomatch h
    · exact nomatch h
    · rw [Eval.bind_of_ok (x := get) (a := m) rfl, h]

theorem call_cStr {n : Int} (hn : Decimal.isWritable n = true) :
    Routine.call evaluate .cStr (some [.int n]) m = .ok (.text (Decimal.writeInt n)) m := by
  have hwritten : textOf m.heap (.int n) = .ok (Decimal.writeInt n) := by
    rw [textOf, Value.written, if_pos (Semantics.isWritable_resolve_int m.heap hn)]
    rfl
  rw [call_of_answer evaluate m (r := .cStr) (a := asText m.heap [.int n]) rfl,
    asText_of_ok hwritten]
  rfl

theorem call_cInt {n : Int} (hn : Decimal.isWritable n = true) :
    Routine.call evaluate .cInt (some [.text (Decimal.writeInt n)]) m = .ok (.int n) m := by
  have hread : (m.heap.opened (.text (Decimal.writeInt n))).toInt = .ok n := by
    rw [Heap.opened, Value.toInt, Decimal.readInt?_writeInt hn]
    exact nofun
  rw [call_of_answer evaluate m (r := .cInt)
    (a := Library.int m.heap [.text (Decimal.writeInt n)]) rfl, int_of_ok hread, recorded_int,
    if_pos hn]
  rfl

theorem call_cLng {s : String} {n : Int} (h : Library.cLng (.text s) = .ok (.int n)) :
    Routine.call evaluate .cLng (some [.text s]) m =
      if Decimal.isWritable n then .ok (.int n) m else .error .wrongValue m := by
  rw [call_of_answer evaluate m (r := .cLng) (a := lenient Library.cLng m.heap [.text s]) rfl,
    lenient_of_ok (f := Library.cLng) (v := .text s) h, recorded_int]
  split_ifs <;> rfl

theorem call_hex (n : Nat) :
    Routine.call evaluate .hex (some [.int n]) m = .ok (.text (hexText n)) m := by
  have hhex : Library.hex (m.heap.opened (.int n)) = .ok (.text (hexText n)) := rfl
  rw [call_of_answer evaluate m (r := .hex) (a := lenient Library.hex m.heap [.int n]) rfl,
    lenient_of_ok (f := Library.hex) hhex]
  rfl

/-- What one routine makes of what another one makes of a value. -/
def callOn (outer inner : Routine) (v : Value) : Eval Value := do
  let w ← inner.call evaluate (some [v])
  outer.call evaluate (some [w])

theorem callOn_of_ok {outer inner : Routine} {v w : Value}
    (h : inner.call evaluate (some [v]) m = .ok w m) :
    callOn evaluate outer inner v m = outer.call evaluate (some [w]) m :=
  Eval.bind_of_ok h _

theorem callOn_cInt_cStr {n : Int} (hn : Decimal.isWritable n = true) :
    callOn evaluate .cInt .cStr (.int n) m = .ok (.int n) m := by
  rw [callOn_of_ok evaluate m (call_cStr evaluate m hn), call_cInt evaluate m hn]

theorem callOn_cLng_cStr {n : Int} (hn : Decimal.isWritable n = true) :
    callOn evaluate .cLng .cStr (.int n) m =
      .ok (.int (if 0 ≤ n ∧ n ≤ 9 then 48 + n else n)) m := by
  have hwritable : Decimal.isWritable (if 0 ≤ n ∧ n ≤ 9 then 48 + n else n) = true := by
    split_ifs with hdigit
    · have hlt : (48 + n).natAbs < Nat.pow 10 2 := by
        change (48 + n).natAbs < 100
        omega
      exact Decimal.isWritable_of_lt (by decide) hlt
    · exact hn
  rw [callOn_of_ok evaluate m (call_cStr evaluate m hn),
    call_cLng evaluate m (Library.cLng_writeInt hn), if_pos hwritable]

/-- The conversion to an integer gives a number back for its decimal text, in every machine and for
every number that has one. The conversion to a long number gives the number of a character instead
where there is but one digit, and agrees with the other exactly for all other numbers. -/
theorem conversions_undo_text_iff (n : Int) (hn : Decimal.isWritable n = true) :
    callOn evaluate .cInt .cStr (.int n) m = .ok (.int n) m ∧
      callOn evaluate .cLng .cStr (.int n) m =
        .ok (.int (if 0 ≤ n ∧ n ≤ 9 then 48 + n else n)) m ∧
      (callOn evaluate .cLng .cStr (.int n) m = callOn evaluate .cInt .cStr (.int n) m ↔
        ¬(0 ≤ n ∧ n ≤ 9)) := by
  have hint := callOn_cInt_cStr evaluate m hn
  have hlong := callOn_cLng_cStr evaluate m hn
  refine ⟨hint, hlong, ?_⟩
  rw [hint, hlong]
  split_ifs with hdigit
  · refine iff_of_false (fun heq ↦ ?_) fun hnot ↦ hnot hdigit
    injection heq with hvalue
    injection hvalue with hnumber
    omega
  · exact iff_of_true rfl hdigit

theorem conversions_undo_text_iff_negative :
    Decimal.isWritable (-7) = true ∧
      callOn Semantics.run .cInt .cStr (.int (-7)) {} = .ok (.int (-7)) {} ∧
      callOn Semantics.run .cLng .cStr (.int (-7)) {} = .ok (.int (-7)) {} := by
  have hn : Decimal.isWritable (-7) = true :=
    Decimal.isWritable_of_lt (by decide : 1 ≤ Decimal.digitLimit) (by decide)
  obtain ⟨hint, -, hagree⟩ := conversions_undo_text_iff Semantics.run {} (-7) hn
  exact ⟨hn, hint, (hagree.mpr (by decide)).trans hint⟩

/-- The text of a digit is converted to the number of its character. -/
theorem digit_converted_to_code :
    Decimal.isWritable 7 = true ∧
      callOn Semantics.run .cLng .cStr (.int 7) {} = .ok (.int 55) {} ∧
      callOn Semantics.run .cLng .cStr (.int 7) {} ≠ .ok (.int 7) {} := by
  have hn : Decimal.isWritable 7 = true :=
    Decimal.isWritable_of_lt (by decide : 1 ≤ Decimal.digitLimit) (by decide)
  have hlong := callOn_cLng_cStr Semantics.run {} hn
  refine ⟨hn, hlong, fun heq ↦ ?_⟩
  injection hlong.symm.trans heq with hvalue
  injection hvalue with hnumber
  exact absurd hnumber (by decide)

/-- The hexadecimal text of a number, behind the mark, is read back by all three readers: the rule for
integers finds the number, whatever its size, a character is found by its number, and the conversion
to a long number gives the number exactly if that has a decimal text. -/
theorem hex_text_read_back (rounds depth : Nat) (args : Arguments) (n : Nat) :
    ∃ h : String, Routine.call evaluate .hex (some [.int n]) m = .ok (.text h) m ∧
      Routine.call evaluate .cLng (some [.text ("&H" ++ h)]) m =
        (if Decimal.isWritable n then .ok (.int n) m else .error .wrongValue m) ∧
      Grammar.readAll .integer ("&H" ++ h) = .ok (.one (.int n)) ∧
      ∀ c : Char, c.toNat = n →
        Semantics.evaluate rounds (depth + 1) (.node (.chr (.text ("&H" ++ h)))) args m =
          .ok (.ofChars [c]) m := by
  refine ⟨Library.hexText n, call_hex evaluate m n,
    call_cLng evaluate m (Library.cLng_marked n), ?_, ?_⟩
  · have hread := (Grammar.IntegerLiteral.ofHex n).readAll_integer
    rw [Grammar.IntegerLiteral.text_ofHex, Grammar.IntegerLiteral.value_ofHex] at hread
    rw [Grammar.mark_append_hexText, hread]
  · rintro c rfl
    exact Semantics.evalChr_marked (Semantics.evaluate rounds depth) m c

theorem hex_text_read_back_euro :
    ∃ h : String, Routine.call Semantics.run .hex (some [.int 8364]) {} = .ok (.text h) {} ∧
      Grammar.readAll .integer ("&H" ++ h) = .ok (.one (.int 8364)) ∧
      Semantics.evaluate 1 1 (.node (.chr (.text ("&H" ++ h)))) none {} =
        .ok (.ofChars ['€']) {} := by
  obtain ⟨h, hhex, -, hread, hchr⟩ := hex_text_read_back Semantics.run {} 1 0 none 8364
  exact ⟨h, hhex, hread, hchr '€' rfl⟩

/-- A number with one digit more than can be written is not given by the conversion. -/
theorem long_hex_text_refused :
    Routine.call Semantics.run .hex (some [.int (Nat.pow 10 Decimal.digitLimit : Nat)]) {} =
        .ok (.text (Library.hexText (Nat.pow 10 Decimal.digitLimit : Nat))) {} ∧
      Routine.call Semantics.run .cLng
          (some [.text ("&H" ++ Library.hexText (Nat.pow 10 Decimal.digitLimit : Nat))]) {} ≠
        .ok (.int (Nat.pow 10 Decimal.digitLimit : Nat)) {} := by
  have hlong : ¬Decimal.isWritable (Nat.pow 10 Decimal.digitLimit : Nat) = true := by
    rw [Decimal.isWritable, Int.natAbs_natCast, decide_eq_true_eq]
    exact Nat.lt_irrefl _
  refine ⟨call_hex Semantics.run {} _, ?_⟩
  rw [call_cLng Semantics.run {} (Library.cLng_marked _), if_neg hlong]
  exact nofun

end Routine

end VbaTrace
