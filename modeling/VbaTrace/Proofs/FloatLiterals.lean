import Mathlib.Data.List.TakeWhile
import VbaTrace.Proofs.IntegerLiterals
import VbaTrace.Proofs.NearestNumbers

/-!
Literals of fractions. A text of a sign, digits, a point and digits (`DecimalText`) denotes a
rational number, and reading it as a floating-point number rounds that number
(`DecimalText.readFloat?_text`).

The rule for fractions takes another way: it reads the digits on each side of the point as a whole
number, writes both numbers again, and only then reads the fraction. What it reads is the text with
its parts rewritten (`DecimalText.rewritten`). This text lacks the zeros at the front of the digits
behind the point, and the sign of a number whose digits before the point are all zeros; so it denotes
the same number only where there is neither (`DecimalText.value_rewritten_eq_iff`).
-/

set_option autoImplicit false

namespace VbaTrace

/-! Texts of fractions -/

/-- The text of a decimal fraction: a sign or none, digits, a point, and digits. -/
structure DecimalText where
  lead : List Char
  whole : List Char
  fraction : List Char
  lead_mem : lead ∈ Decimal.leadingSigns
  whole_ne_nil : whole ≠ []
  fraction_ne_nil : fraction ≠ []
  whole_valid : ∀ c ∈ whole, Text.isDigit c = true
  fraction_valid : ∀ c ∈ fraction, Text.isDigit c = true

namespace DecimalText

open Decimal

variable (d : DecimalText)

def text : List Char :=
  d.lead ++ (d.whole ++ '.' :: d.fraction)

/-- The number without its sign. -/
def magnitude : ℚ :=
  digitsValue d.whole + digitsValue d.fraction / 10 ^ d.fraction.length

/-- The number that the text denotes. -/
def value : ℚ :=
  if d.lead = ['-'] then -d.magnitude else d.magnitude

theorem magnitude_nonneg : 0 ≤ d.magnitude := by
  rw [magnitude]
  positivity

/-! Reading -/

theorem splitAtFirst_of_none {p : Char → Bool} {cs : List Char} (h : ∀ c ∈ cs, p c = false) :
    splitAtFirst p cs = (cs, none) := by
  have hall (c : Char) (hc : c ∈ cs) : (!p c) = true := (Bool.not_eq_true' _).mpr (h c hc)
  rw [splitAtFirst, List.takeWhile_eq_self_iff.mpr hall, List.dropWhile_eq_nil_iff.mpr hall]

theorem splitAtFirst_append {p : Char → Bool} {front : List Char} (h : ∀ c ∈ front, p c = false)
    {x : Char} (hx : p x = true) (rest : List Char) :
    splitAtFirst p (front ++ x :: rest) = (front, some rest) := by
  have hall (c : Char) (hc : c ∈ front) : (!p c) = true := (Bool.not_eq_true' _).mpr (h c hc)
  have hstop : ¬(!p x) = true := by simp [hx]
  rw [splitAtFirst, List.takeWhile_append_of_pos hall, List.dropWhile_append_of_pos hall,
    List.takeWhile_cons_of_neg (p := fun c ↦ !p c) hstop,
    List.dropWhile_cons_of_neg (p := fun c ↦ !p c) hstop, List.append_nil]

theorem readMantissa?_digits :
    readMantissa? (d.whole ++ '.' :: d.fraction) =
      some ⟨digitsValue (d.whole ++ d.fraction), -d.fraction.length⟩ := by
  have hpoint (c : Char) (hc : c ∈ d.whole) : (c == '.') = false := by
    refine beq_false_of_ne fun heq ↦ ?_
    exact absurd (heq ▸ d.whole_valid c hc) (by decide)
  have hwhole := digitRun_of_isDigit d.whole_ne_nil d.whole_valid
  have hfraction := digitRun_of_isDigit d.fraction_ne_nil d.fraction_valid
  rw [readMantissa?, splitAtFirst_append hpoint rfl]
  dsimp only
  split
  · next heq _ => exact absurd heq d.whole_ne_nil
  · next heq _ => exact absurd heq d.whole_ne_nil
  · next heq _ => exact absurd heq d.fraction_ne_nil
  · rw [hwhole, hfraction, digitsValue, List.map_append, ← List.length_map Text.digitOf]
    rfl

theorem value_digits :
    Scientific.value ⟨digitsValue (d.whole ++ d.fraction), -d.fraction.length⟩ = d.magnitude := by
  have hpos : (0 : ℚ) < 10 ^ d.fraction.length := by positivity
  rw [Scientific.value, digitsValue_append, magnitude, zpow_neg, zpow_natCast, ← div_eq_mul_inv,
    div_eq_iff hpos.ne', add_mul, div_mul_cancel₀ _ hpos.ne']
  push_cast [Nat.pow_eq]
  rfl

/-- A character of the digits and the point, where it is no digit, is the point. -/
theorem eq_point {c : Char} (hc : c ∈ d.whole ++ '.' :: d.fraction)
    (h : Text.isDigit c = false) : c = '.' := by
  rw [List.mem_append, List.mem_cons] at hc
  rcases hc with hc | hc | hc
  · exact absurd (d.whole_valid c hc) (Bool.eq_false_iff.mp h)
  · exact hc
  · exact absurd (d.fraction_valid c hc) (Bool.eq_false_iff.mp h)

theorem readScientific?_digits :
    readScientific? (d.whole ++ '.' :: d.fraction) =
      some ⟨digitsValue (d.whole ++ d.fraction), -d.fraction.length⟩ := by
  have hpower (c : Char) (hc : c ∈ d.whole ++ '.' :: d.fraction) :
      (c == 'e' || c == 'E') = false := by
    rw [Bool.or_eq_false_iff, beq_eq_false_iff_ne, beq_eq_false_iff_ne]
    constructor
    · rintro rfl
      exact absurd (d.eq_point hc (by decide)) (by decide)
    · rintro rfl
      exact absurd (d.eq_point hc (by decide)) (by decide)
  rw [readScientific?, splitAtFirst_of_none hpower]
  exact d.readMantissa?_digits

theorem readMagnitude?_digits :
    readMagnitude? (d.whole ++ '.' :: d.fraction) = some (Number.ofRational d.magnitude) := by
  have hword {word : String} (hword : '.' ∉ word.toList) :
      (String.ofList ((d.whole ++ '.' :: d.fraction).map Char.toLower) == word) = false := by
    refine beq_false_of_ne fun heq ↦ ?_
    rw [← heq, String.toList_ofList, List.mem_map] at hword
    exact hword ⟨'.', by simp, rfl⟩
  have hinf : ¬(String.ofList ((d.whole ++ '.' :: d.fraction).map Char.toLower) == "inf" ||
      String.ofList ((d.whole ++ '.' :: d.fraction).map Char.toLower) == "infinity") = true := by
    rw [hword (by decide), hword (by decide)]
    exact nofun
  rw [readMagnitude?, if_neg hinf, if_neg (Bool.eq_false_iff.mp (hword (by decide))),
    readScientific?_digits, Option.map_some, Scientific.toFloat_eq, value_digits]

/-- The text is read as the number that it denotes, rounded. -/
theorem readFloat?_text :
    readFloat? (String.ofList d.text) =
      some (if d.lead = ['-'] then -Number.ofRational d.magnitude
        else Number.ofRational d.magnitude) := by
  have hhead : (d.whole ++ '.' :: d.fraction).head?.any Text.isDigit = true := by
    rw [List.head?_append, List.head?_eq_some_head d.whole_ne_nil]
    exact d.whole_valid _ (List.head_mem d.whole_ne_nil)
  have hlast : (d.whole ++ '.' :: d.fraction).getLast?.any Text.isDigit = true := by
    rw [List.getLast?_append, List.getLast?_cons, List.getLast?_eq_some_getLast d.fraction_ne_nil]
    exact d.fraction_valid _ (List.getLast_mem d.fraction_ne_nil)
  rw [readFloat?, String.toList_ofList, text, trimSpace_append d.lead_mem hhead hlast,
    takeSign_append d.lead_mem hhead]
  dsimp only
  rw [readMagnitude?_digits, Option.map_some]
  simp only [decide_eq_true_eq]

/-! Rewritten parts -/

/-- The text with each part read as a whole number and written again. -/
def rewritten : DecimalText where
  lead := if signedValue d.lead d.whole < 0 then ['-'] else []
  whole := Nat.toDigits 10 (digitsValue d.whole)
  fraction := Nat.toDigits 10 (digitsValue d.fraction)
  lead_mem := by split_ifs <;> decide
  whole_ne_nil := Nat.toDigits_ne_nil
  fraction_ne_nil := Nat.toDigits_ne_nil
  whole_valid _ hc := isDigit_of_mem_toDigits hc
  fraction_valid _ hc := isDigit_of_mem_toDigits hc

theorem ofList_text_rewritten :
    writeInt (signedValue d.lead d.whole) ++ "." ++ writeInt (digitsValue d.fraction) =
      String.ofList d.rewritten.text := by
  have hpoint : "." = String.ofList ['.'] := rfl
  have hpositive : ¬((digitsValue d.fraction : Int) < 0) := by omega
  rw [writeInt_eq, writeInt_eq, natAbs_signedValue, if_neg hpositive, Int.natAbs_natCast, hpoint,
    ← String.ofList_append, ← String.ofList_append, text, rewritten]
  simp

theorem lead_rewritten_eq_minus_iff :
    d.rewritten.lead = ['-'] ↔ d.lead = ['-'] ∧ digitsValue d.whole ≠ 0 := by
  have hsign : (if signedValue d.lead d.whole < 0 then ['-'] else []) = ['-'] ↔
      signedValue d.lead d.whole < 0 := by
    split_ifs with h <;> simp [h]
  rw [rewritten, hsign, signedValue]
  split_ifs with hminus
  · simp only [hminus, true_and]
    omega
  · simp only [hminus, false_and, iff_false]
    omega

/-- Rewriting drops the zeros at the front of the digits, and nothing else. -/
theorem length_toDigits_digitsValue {cs : List Char} (h : ∀ c ∈ cs, Text.isDigit c = true)
    (hpos : digitsValue cs ≠ 0) :
    (Nat.toDigits 10 (digitsValue cs)).length = cs.length ↔ ∀ c ∈ cs.head?, Text.digitOf c ≠ 0 := by
  have hle (n : Nat) : (Nat.toDigits 10 (digitsValue cs)).length ≤ n ↔ digitsValue cs < 10 ^ n := by
    rcases Nat.eq_zero_or_pos n with rfl | hn
    · have hlength := List.length_pos_iff.mpr (Nat.toDigits_ne_nil (b := 10) (n := digitsValue cs))
      omega
    · exact Nat.length_toDigits_le_iff (by decide) hn
  cases cs with
  | nil => exact absurd rfl hpos
  | cons c cs =>
    have hshort := (hle (cs.length + 1)).mpr (digitsValue_lt h)
    have hrest := digitsValue_lt fun x hx ↦ h x (List.mem_cons_of_mem c hx)
    have hfirst : digitsValue (c :: cs) =
        Text.digitOf c * Nat.pow 10 cs.length + digitsValue cs := by
      have hone : digitsValue [c] = Text.digitOf c := Nat.zero_add _
      rw [← List.singleton_append, digitsValue_append, hone]
    have hlong := hle cs.length
    rw [hfirst] at hshort hlong ⊢
    simp only [List.head?_cons, Option.mem_some, forall_eq', List.length_cons]
    by_cases hzero : Text.digitOf c = 0
    · rw [hzero, Nat.zero_mul, Nat.zero_add] at hshort hlong ⊢
      have hless := hlong.mpr hrest
      simp only [ne_eq, not_true_eq_false, iff_false]
      omega
    · have hmul : Nat.pow 10 cs.length ≤ Text.digitOf c * Nat.pow 10 cs.length :=
        Nat.le_mul_of_pos_left _ (Nat.pos_of_ne_zero hzero)
      have hmore := mt hlong.mp (not_lt.mpr (hmul.trans (Nat.le_add_right _ _)))
      simp only [ne_eq, hzero, not_false_eq_true, iff_true]
      omega

theorem magnitude_rewritten_eq_iff :
    d.rewritten.magnitude = d.magnitude ↔
      digitsValue d.fraction = 0 ∨ ∀ c ∈ d.fraction.head?, Text.digitOf c ≠ 0 := by
  have hwhole : digitsValue d.rewritten.whole = digitsValue d.whole := digitsValue_toDigits _
  have hfraction : digitsValue d.rewritten.fraction = digitsValue d.fraction :=
    digitsValue_toDigits _
  rw [magnitude, magnitude, hwhole, hfraction, add_right_inj]
  by_cases hzero : digitsValue d.fraction = 0
  · simp [hzero]
  · have hpos : (digitsValue d.fraction : ℚ) ≠ 0 := Nat.cast_ne_zero.mpr hzero
    have hpow : ((10 : ℚ) ^ d.rewritten.fraction.length = 10 ^ d.fraction.length) ↔
        d.rewritten.fraction.length = d.fraction.length :=
      pow_right_inj₀ (by norm_num) (by norm_num)
    rw [div_eq_mul_inv, div_eq_mul_inv, mul_right_inj' hpos, inv_inj, hpow, or_iff_right hzero]
    exact length_toDigits_digitsValue d.fraction_valid hzero

/-- Where the digits behind the point begin with a zero, or a minus stands before zeros, the
rewritten text denotes another number, unless nothing but zeros is behind the point. -/
theorem value_rewritten_eq_iff :
    d.rewritten.value = d.value ↔
      digitsValue d.fraction = 0 ∨
        (∀ c ∈ d.fraction.head?, Text.digitOf c ≠ 0) ∧
          (d.lead = ['-'] → digitsValue d.whole ≠ 0) := by
  have hmagnitude := d.magnitude_rewritten_eq_iff
  rw [value, value]
  simp only [d.lead_rewritten_eq_minus_iff]
  by_cases hminus : d.lead = ['-']
  · by_cases hzero : digitsValue d.whole = 0
    · have hvanishes : d.magnitude = 0 ↔ digitsValue d.fraction = 0 := by
        simp [magnitude, hzero]
      have hnonneg := d.magnitude_nonneg
      have hnonneg' := d.rewritten.magnitude_nonneg
      simp only [hminus, hzero, ne_eq, not_true_eq_false, and_false, if_false, if_true,
        true_imp_iff, or_false]
      rw [← hvanishes]
      constructor
      · intro heq
        linarith
      · intro heq
        rw [heq, neg_zero, hmagnitude.mpr (.inl (hvanishes.mp heq)), heq]
    · simp only [hminus, hzero, ne_eq, not_false_eq_true, and_self, if_true, neg_inj, hmagnitude,
        imp_self, and_true]
  · simp only [hminus, false_and, if_false, hmagnitude, false_imp_iff, and_true]

/-- The rewritten text has no minus before zero, so its sign is that of its number. -/
theorem readFloat?_rewritten :
    readFloat? (String.ofList d.rewritten.text) = some (Number.ofSigned d.rewritten.value) := by
  have hnonneg := d.rewritten.magnitude_nonneg
  rw [readFloat?_text, Number.ofSigned, value]
  by_cases hminus : d.rewritten.lead = ['-']
  · have hpos : 0 < d.rewritten.magnitude := by
      have hwhole : digitsValue d.rewritten.whole ≠ 0 := by
        rw [rewritten, digitsValue_toDigits]
        exact (d.lead_rewritten_eq_minus_iff.mp hminus).2
      rw [magnitude]
      positivity
    simp only [hminus, if_true, neg_neg, neg_lt_zero, hpos]
  · simp only [hminus, if_false, not_lt.mpr hnonneg]

end DecimalText

/-! The rule for fractions -/

namespace Grammar

open Cursor (between)

theorem isVisible_of_isDigit {c : Char} (h : Text.isDigit c = true) : isVisible c = true :=
  Text.of_isDigit (P := fun c ↦ isVisible c = true) (by decide +kernel) h

/-- A point, or nothing, ends a number. -/
theorem Ahead.numberEnds {rest : List Char} (hrest : Ahead ['.'] rest) : NumberEnds rest where
  digit := hrest.head_any (by decide) (List.forall_mem_singleton.mpr (by decide))
  suffix := hrest.head_any (by decide) (List.forall_mem_singleton.mpr (by decide))
  kind w hw := by
    have hmisses : (['!', '#', '@'].all fun w ↦ (Lexeme.caseless [w]).misses ['.']) = true := by
      decide
    exact Lexeme.ends_of_misses (List.all_eq_true.mp hmisses w hw) hrest

theorem built_fraction {w f : Int} {x : Float}
    (h : Decimal.readFloat? (Decimal.writeInt w ++ "." ++ Decimal.writeInt f) = some x)
    (c : Cursor) :
    (Outcome.matched c (.ofList [.int w, .int f])).built .fraction =
      .matched c (.one (.float x)) := by
  have hdisplay (n : Int) : (Value.int n).display = Decimal.writeInt n := rfl
  refine Outcome.built_of_make rfl ?_ c
  rw [Builder.make, buildFraction]
  dsimp only [Tokens.ofList, Tokens.items]
  rw [hdisplay, hdisplay, h]

/-- The point between the parts. -/
theorem ends_point (depth : Nat) (front rest : List Char) :
    (Pattern.drop (.anyCase ".")).Ends depth true .normal (between front ('.' :: rest))
      (.matched (between (front ++ ['.']) rest) .empty) := by
  have hat : (between front ('.' :: rest)).At (some '.') :=
    ⟨rfl, fun y hy ↦ Option.mem_some.mp hy ▸ by decide⟩
  have hscan : (Lexeme.caseless ['.']).scan (between front (['.'] ++ rest)) =
      some (between (front ++ ['.']) rest, some (String.ofList ['.'])) :=
    Cursor.scan_caseless front rest (by decide) rfl
  exact .drop (.lexeme (hat.enter _ _ _) hscan depth) rfl

end Grammar

namespace DecimalText

open Grammar Decimal

open Cursor (between)

variable (d : DecimalText)

theorem startsVisibly_text : startsVisibly d.text = true := by
  have hlead := d.lead_mem
  simp only [leadingSigns, List.mem_cons, List.not_mem_nil, or_false] at hlead
  rw [startsVisibly, text]
  rcases hlead with hlead | hlead | hlead
  · rw [hlead, List.nil_append, List.head?_append, List.head?_eq_some_head d.whole_ne_nil]
    exact isVisible_of_isDigit (d.whole_valid _ (List.head_mem d.whole_ne_nil))
  · rw [hlead]
    rfl
  · rw [hlead]
    rfl

theorem tab_not_mem_text : '\t' ∉ d.text := by
  have hlead : '\t' ∉ d.lead := by
    have hleads : (leadingSigns.all fun w ↦ !w.contains '\t') = true := by decide
    have hnot := List.all_eq_true.mp hleads d.lead d.lead_mem
    simpa using hnot
  rw [text, List.mem_append, not_or]
  exact ⟨hlead, fun hmem ↦ absurd (d.eq_point hmem (by decide)) (by decide)⟩

theorem numberEnds_point : NumberEnds ('.' :: d.fraction) :=
  (ahead_sign List.mem_cons_self 0 d.fraction).numberEnds

theorem at_fraction (front : List Char) :
    (between front d.fraction).At (some (d.fraction.head d.fraction_ne_nil)) where
  head := List.head?_eq_some_head d.fraction_ne_nil
  visible := by
    intro y hy
    rw [← Option.mem_some.mp hy]
    exact isVisible_of_isDigit (d.fraction_valid _ (List.head_mem d.fraction_ne_nil))

theorem ends_whole (h : d.whole.length ≤ digitLimit) :
    (Pattern.ref .decimalLiteral ++ .drop (.anyCase ".")).Ends 1 false .normal (between [] d.text)
      (.matched (between (d.lead ++ d.whole ++ ['.']) d.fraction)
        (.one (.int (signedValue d.lead d.whole)))) := by
  have hnumber := ends_decimalLiteral d.lead_mem d.whole_ne_nil d.whole_valid h
    mem_suffixSigns_of_none d.numberEnds_point 0 []
  have hpoint := ends_point 1 (d.lead ++ d.whole) d.fraction
  simp only [Option.toList_none, List.append_nil, List.nil_append, List.append_assoc]
    at hnumber hpoint ⊢
  exact .seq rfl (.rule rfl hnumber) hpoint rfl

theorem ends_fraction (h : d.fraction.length ≤ digitLimit) (front : List Char) :
    (Pattern.ref .decimalLiteral).Ends 1 true .normal (between front d.fraction)
      (.matched (between (front ++ d.fraction) []) (.one (.int (digitsValue d.fraction)))) := by
  have hnumber := ends_decimalLiteral (List.mem_cons_self : [] ∈ leadingSigns) d.fraction_ne_nil
    d.fraction_valid h mem_suffixSigns_of_none (ahead_nil _).numberEnds 0 front
  simp only [Option.toList_none, List.append_nil, List.nil_append] at hnumber
  exact .rule ((d.at_fraction front).enter _ _ _) hnumber

/-- The rule hands on the rewritten text. -/
theorem ends_floatLiteral (hwhole : d.whole.length ≤ digitLimit)
    (hfraction : d.fraction.length ≤ digitLimit) :
    (Pattern.ref .floatLiteral).Ends 2 true .normal (between [] d.text)
      (.matched (between d.text []) (.one (.float (Number.ofSigned d.rewritten.value)))) := by
  have hat := at_of_startsVisibly d.startsVisibly_text [] []
  rw [List.append_nil] at hat
  have hfront : d.lead ++ d.whole ++ ['.'] ++ d.fraction = d.text := by simp [text]
  have hsecond := d.ends_fraction hfraction (d.lead ++ d.whole ++ ['.'])
  rw [hfront] at hsecond
  have hparts : (Pattern.ref .decimalLiteral ++ .drop (.anyCase ".") ++ .ref .decimalLiteral ++
      Pattern.floatSuffix).Ends 1 false .normal (between [] d.text)
      (.matched (between d.text [])
        (.ofList [.int (signedValue d.lead d.whole), .int (digitsValue d.fraction)])) :=
    .seq rfl (.seq rfl (d.ends_whole hwhole) hsecond rfl)
      (ends_floatSuffix (ahead_nil _).numberEnds 1 d.text) rfl
  have hread := d.readFloat?_rewritten
  rw [← ofList_text_rewritten] at hread
  exact .rule (hat.enter _ _ _) (.build rfl hparts (built_fraction hread _))

/-- Too many digits on one side of the point are at fault. -/
theorem ends_floatLiteral_of_long
    (h : ¬(d.whole.length ≤ digitLimit ∧ d.fraction.length ≤ digitLimit)) :
    (Pattern.ref .floatLiteral).Ends 2 true .normal (between [] d.text) (.faulty .wrongValue) := by
  have hat := at_of_startsVisibly d.startsVisibly_text [] []
  rw [List.append_nil] at hat
  refine .rule (hat.enter _ _ _) (.build rfl (.seq_of_faulty rfl ?_) rfl)
  by_cases hwhole : d.whole.length ≤ digitLimit
  · have hfraction : digitLimit < d.fraction.length := not_le.mp fun hle ↦ h ⟨hwhole, hle⟩
    have hlong := ends_decimalLiteral_of_long (List.mem_cons_self : [] ∈ leadingSigns)
      d.fraction_ne_nil d.fraction_valid hfraction
      (rfl : ([] : List Char).head?.any Text.isDigit = false) 0 (d.lead ++ d.whole ++ ['.'])
    rw [List.append_nil, List.nil_append] at hlong
    exact .seq rfl (d.ends_whole hwhole) (.rule ((d.at_fraction _).enter _ _ _) hlong) rfl
  · have hlong := ends_decimalLiteral_of_long d.lead_mem d.whole_ne_nil d.whole_valid
      (not_le.mp hwhole) d.numberEnds_point.digit 0 []
    exact .seq_of_faulty rfl (.seq_of_faulty rfl (.rule rfl hlong))

theorem readAll_text :
    readAll .floatLiteral (String.ofList d.text) =
      if d.whole.length ≤ digitLimit ∧ d.fraction.length ≤ digitLimit then
        .ok (.one (.float (Number.ofSigned d.rewritten.value)))
      else .error .wrongValue := by
  have hdepth : 2 ≤ depthBound d.text.length := by
    rw [depthBound]
    omega
  split_ifs with h
  · have hread := runRule_of_ends d.tab_not_mem_text (d.ends_floatLiteral h.1 h.2) hdepth
    exact readAll_of_matched rfl hread rfl
  · have hread := runRule_of_ends d.tab_not_mem_text (d.ends_floatLiteral_of_long h) hdepth
    exact readAll_of_faulty rfl hread

/-- A literal of a fraction gives the number of its rewritten text, rounded, or is at fault where it
has too many digits. This is the number of the literal itself exactly if no zero comes first behind
the point and no minus before zeros, or if there are only zeros behind the point. -/
theorem fraction_keeps_value_iff (d : DecimalText) :
    readAll .floatLiteral (String.ofList d.text) =
        (if d.whole.length ≤ digitLimit ∧ d.fraction.length ≤ digitLimit then
          .ok (.one (.float (Number.ofSigned d.rewritten.value)))
        else .error .wrongValue) ∧
      readFloat? (String.ofList d.rewritten.text) = some (Number.ofSigned d.rewritten.value) ∧
      (d.rewritten.value = d.value ↔
        digitsValue d.fraction = 0 ∨
          (∀ c ∈ d.fraction.head?, Text.digitOf c ≠ 0) ∧
            (d.lead = ['-'] → digitsValue d.whole ≠ 0)) :=
  ⟨d.readAll_text, d.readFloat?_rewritten, d.value_rewritten_eq_iff⟩

/-- One and five hundredths is read as one and a half. -/
theorem hundredths_read_as_tenths :
    ∃ d : DecimalText, d.text = ['1', '.', '0', '5'] ∧ d.value = 21 / 20 ∧
      d.rewritten.text = ['1', '.', '5'] ∧ d.rewritten.value = 3 / 2 ∧
      readAll .floatLiteral "1.05" = .ok (.one (.float (Number.ofSigned (3 / 2)))) := by
  have hwhole : (['1'].all Text.isDigit) = true := by decide
  have hfraction : (['0', '5'].all Text.isDigit) = true := by decide
  have hone : digitsValue ['1'] = 1 := by decide
  have hfive : digitsValue ['0', '5'] = 5 := by decide
  have hwritten : Nat.toDigits 10 1 = ['1'] ∧ Nat.toDigits 10 5 = ['5'] := by decide
  let d : DecimalText := ⟨[], ['1'], ['0', '5'], List.mem_cons_self, List.cons_ne_nil _ _,
    List.cons_ne_nil _ _, List.all_eq_true.mp hwhole, List.all_eq_true.mp hfraction⟩
  have htext : d.rewritten.text = ['1', '.', '5'] := by
    simp [d, text, rewritten, signedValue, hone, hfive, hwritten]
  have hvalue : d.rewritten.value = 3 / 2 := by
    have htenths : digitsValue ['5'] = 5 := by decide
    norm_num [d, value, magnitude, rewritten, signedValue, hone, hfive, hwritten, htenths]
  have hread := d.readAll_text
  rw [hvalue] at hread
  refine ⟨d, rfl, ?_, htext, hvalue, hread⟩
  norm_num [d, value, magnitude, hone, hfive]

end DecimalText

end VbaTrace
