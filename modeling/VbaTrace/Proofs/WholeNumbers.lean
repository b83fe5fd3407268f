import Mathlib.Data.List.Induction
import Mathlib.Tactic.SplitIfs
import VbaTrace.Decimal.Writing

/-!
Whole numbers and their base-ten texts. Digits of every script count; what holds of the ten digits of
each script holds of all digits (`Text.of_isDigit`). A sign and a run of digits denote a number, if
there are no more than `digitLimit` of them (`readInt?_of_isDigit`), and what is written of a number
that can be written is read as that number (`readInt?_writeInt`).
-/

set_option autoImplicit false

namespace VbaTrace

/-- What holds of every ASCII character holds of a character with a small number. -/
theorem Text.of_ascii {P : Char → Prop} (h : ∀ n < 128, P (Char.ofNat n)) {c : Char}
    (hc : c.toNat < 128) : P c :=
  Char.ofNat_toNat c ▸ h c.toNat hc

theorem Text.toNat_lt_of_isDigit {c : Char} (h : c.isDigit = true) : c.toNat < 128 := by
  have hrange := Char.isDigit_iff_toNat.mp h
  exact Nat.lt_of_le_of_lt hrange.2 (by decide)

namespace Text

/-! Texts without blanks at their ends -/

section

variable {p : Char → Bool} {cs : List Char}

theorem dropWhile_of_head (h : cs.head?.any p = false) : cs.dropWhile p = cs := by
  cases cs with
  | nil => rfl
  | cons c cs => exact List.dropWhile_cons_of_neg (Bool.eq_false_iff.mp h)

theorem dropWhile_of_ends (hhead : cs.head?.any p = false) (hlast : cs.getLast?.any p = false) :
    ((cs.dropWhile p).reverse.dropWhile p).reverse = cs := by
  have hreverse : cs.reverse.head?.any p = false := by rwa [List.head?_reverse]
  rw [dropWhile_of_head hhead, dropWhile_of_head hreverse, List.reverse_reverse]

end

/-! Digits of any script -/

/-- The value of a digit of any script. -/
def digitOf (c : Char) : Nat :=
  (digit? c).getD 0

theorem digit?_of_isDigit {c : Char} (h : isDigit c = true) : digit? c = some (digitOf c) := by
  obtain ⟨d, hd⟩ := Option.isSome_iff_exists.mp h
  rw [digitOf, hd, Option.getD_some]

/-- A digit lies in the run of ten behind some zero. -/
theorem exists_zero {c : Char} (hc : isDigit c = true) :
    ∃ z ∈ digitZeros, z ≤ c.toNat ∧ c.toNat ≤ z + 9 ∧ digitOf c = c.toNat - z := by
  have hdigit := digit?_of_isDigit hc
  unfold digit? at hdigit
  dsimp only at hdigit
  split_ifs at hdigit with _ hascii
  · rw [Bool.and_eq_true, decide_eq_true_eq, decide_eq_true_eq] at hascii
    exact ⟨48, by decide +kernel, hascii.1, hascii.2, (Option.some.inj hdigit).symm⟩
  · obtain ⟨z, hz, hvalue⟩ := Option.map_eq_some_iff.mp hdigit
    have hin := Array.find?_some hz
    rw [Bool.and_eq_true, decide_eq_true_eq, decide_eq_true_eq] at hin
    exact ⟨z, Array.mem_of_find?_eq_some hz, hin.1, hin.2, hvalue.symm⟩

theorem digitOf_lt {c : Char} (h : isDigit c = true) : digitOf c < 10 := by
  obtain ⟨z, -, -, hhigh, hvalue⟩ := exists_zero h
  omega

/-- What holds of the ten digits behind each zero holds of all digits. -/
theorem of_isDigit {P : Char → Prop} (h : ∀ z ∈ digitZeros, ∀ d < 10, P (Char.ofNat (z + d)))
    {c : Char} (hc : isDigit c = true) : P c := by
  obtain ⟨z, hz, hlow, hhigh, -⟩ := exists_zero hc
  have hdigit := h z hz (c.toNat - z) (by omega)
  rwa [Nat.add_sub_cancel' hlow, Char.ofNat_toNat] at hdigit

theorem digit?_of_ascii {c : Char} (h : c.isDigit = true) :
    digit? c = some (c.toNat - '0'.toNat) :=
  of_ascii (P := fun c ↦ c.isDigit = true → digit? c = some (c.toNat - '0'.toNat))
    (by decide +kernel) (toNat_lt_of_isDigit h) h

theorem isDigit_of_ascii {c : Char} (h : c.isDigit = true) : isDigit c = true :=
  Option.isSome_of_eq_some (digit?_of_ascii h)

end Text

namespace Decimal

/-! Digits in base ten -/

theorem isSpace_of_isDigit {c : Char} (h : Text.isDigit c = true) : isSpace c = false :=
  Text.of_isDigit (P := fun c ↦ isSpace c = false) (by decide +kernel) h

theorem digitRun_of_isDigit {cs : List Char} (hne : cs ≠ [])
    (h : ∀ c ∈ cs, Text.isDigit c = true) : digitRun cs = some (cs.map Text.digitOf) := by
  induction cs with
  | nil => exact absurd rfl hne
  | cons c cs ih =>
    have hc := Text.digit?_of_isDigit (h c List.mem_cons_self)
    have hcs (d : Char) (hd : d ∈ cs) : Text.isDigit d = true := h d (List.mem_cons_of_mem c hd)
    cases cs with
    | nil =>
      rw [digitRun, hc]
      rfl
    | cons d cs =>
      have hunderscore (ds : List Char) (heq : d :: cs = '_' :: ds) : False := by
        have hd := hcs d List.mem_cons_self
        rw [(List.cons.inj heq).1] at hd
        exact absurd hd (by decide)
      rw [digitRun, hc, ih nofun hcs]
      · rfl
      · exact nofun
      · exact hunderscore

theorem ofDigits_concat (base : Nat) (ds : List Nat) (d : Nat) :
    ofDigits base (ds ++ [d]) = ofDigits base ds * base + d := by
  rw [ofDigits, List.foldl_append]
  rfl

/-- The number that a run of digits denotes. -/
def digitsValue (cs : List Char) : Nat :=
  ofDigits 10 (cs.map Text.digitOf)

theorem digitsValue_concat (cs : List Char) (c : Char) :
    digitsValue (cs ++ [c]) = digitsValue cs * 10 + Text.digitOf c := by
  rw [digitsValue, List.map_append]
  exact ofDigits_concat 10 (cs.map Text.digitOf) (Text.digitOf c)

theorem digitsValue_append (cs ds : List Char) :
    digitsValue (cs ++ ds) = digitsValue cs * Nat.pow 10 ds.length + digitsValue ds := by
  induction ds using List.reverseRecOn with
  | nil =>
    rw [List.append_nil]
    exact (Nat.mul_one _).symm
  | append_singleton ds d ih =>
    have hpow : Nat.pow 10 (ds ++ [d]).length = Nat.pow 10 ds.length * 10 := by
      rw [List.length_append]
      rfl
    rw [← List.append_assoc, digitsValue_concat, ih, digitsValue_concat, hpow, ← Nat.mul_assoc,
      Nat.add_mul, Nat.add_assoc]

/-- A number of so many digits is smaller than the next power of ten. -/
theorem digitsValue_lt {cs : List Char} (h : ∀ c ∈ cs, Text.isDigit c = true) :
    digitsValue cs < Nat.pow 10 cs.length := by
  induction cs using List.reverseRecOn with
  | nil => decide
  | append_singleton cs c ih =>
    have hc := Text.digitOf_lt (h c (by simp))
    have hcs := ih fun d hd ↦ h d (List.mem_append_left [c] hd)
    rw [digitsValue_concat, List.length_append, List.length_singleton]
    change _ < Nat.pow 10 cs.length * 10
    omega

/-- The decimal digits of a number denote it. -/
theorem digitsValue_toDigits (n : Nat) : digitsValue (Nat.toDigits 10 n) = n := by
  have hascii {c : Char} (hc : c ∈ Nat.toDigits 10 n) : Text.digitOf c = c.toNat - '0'.toNat := by
    have hdigit := Nat.isDigit_of_mem_toDigits (by decide) (by decide) hc
    rw [Text.digitOf, Text.digit?_of_ascii hdigit, Option.getD_some]
  have hdenoted : Nat.ofDigitChars 10 (Nat.toDigits 10 n) 0 = n :=
    Nat.ofDigitChars_toDigits (by decide) (by decide)
  rw [digitsValue, List.map_congr_left fun c hc ↦ hascii hc, ofDigits, List.foldl_map]
  rw [Nat.ofDigitChars] at hdenoted
  simpa only [Nat.mul_comm] using hdenoted

theorem isDigit_of_mem_toDigits {n : Nat} {c : Char} (hc : c ∈ Nat.toDigits 10 n) :
    Text.isDigit c = true :=
  Text.isDigit_of_ascii (Nat.isDigit_of_mem_toDigits (by decide) (by decide) hc)

theorem trimSpace_of_ends {cs : List Char} (hhead : cs.head?.any isSpace = false)
    (hlast : cs.getLast?.any isSpace = false) : trimSpace cs = cs :=
  Text.dropWhile_of_ends hhead hlast

/-- The signs that may lead a whole number. -/
def leadingSigns : List (List Char) := [[], ['+'], ['-']]

/-- The number that a run of digits denotes behind a sign. -/
def signedValue (lead cs : List Char) : Int :=
  if lead = ['-'] then -digitsValue cs else digitsValue cs

theorem natAbs_signedValue (lead cs : List Char) :
    (signedValue lead cs).natAbs = digitsValue cs := by
  rw [signedValue]
  split_ifs <;> omega

section

variable {lead cs : List Char}

theorem takeSign_append (hlead : lead ∈ leadingSigns) (hhead : cs.head?.any Text.isDigit = true) :
    takeSign (lead ++ cs) = (decide (lead = ['-']), cs) := by
  simp only [leadingSigns, List.mem_cons, List.not_mem_nil, or_false] at hlead
  rcases hlead with rfl | rfl | rfl
  · rw [List.nil_append]
    unfold takeSign
    split
    · have hminus : ¬Text.isDigit '-' = true := by decide
      exact absurd hhead hminus
    · have hplus : ¬Text.isDigit '+' = true := by decide
      exact absurd hhead hplus
    · rfl
  · rfl
  · rfl

theorem trimSpace_append (hlead : lead ∈ leadingSigns) (hhead : cs.head?.any Text.isDigit = true)
    (hlast : cs.getLast?.any Text.isDigit = true) : trimSpace (lead ++ cs) = lead ++ cs := by
  obtain ⟨first, hfirst, hdigit⟩ := (Option.any_eq_true _ _).mp hhead
  obtain ⟨last, hend, hlast⟩ := (Option.any_eq_true _ _).mp hlast
  refine trimSpace_of_ends ?_ ?_
  · simp only [leadingSigns, List.mem_cons, List.not_mem_nil, or_false] at hlead
    rcases hlead with rfl | rfl | rfl
    · rw [List.nil_append, hfirst]
      exact isSpace_of_isDigit hdigit
    · have hplus : isSpace '+' = false := by decide
      exact hplus
    · have hminus : isSpace '-' = false := by decide
      exact hminus
  · rw [List.getLast?_append, hend]
    exact isSpace_of_isDigit hlast

/-- A sign and a run of digits denote a number, when there are not too many digits. -/
theorem readInt?_of_isDigit (hlead : lead ∈ leadingSigns) (hne : cs ≠ [])
    (h : ∀ c ∈ cs, Text.isDigit c = true) :
    readInt? (String.ofList (lead ++ cs)) =
      if cs.length ≤ digitLimit then some (signedValue lead cs) else none := by
  have hhead : cs.head?.any Text.isDigit = true := by
    rw [List.head?_eq_some_head hne]
    exact h _ (List.head_mem hne)
  have hlast : cs.getLast?.any Text.isDigit = true := by
    rw [List.getLast?_eq_some_getLast hne]
    exact h _ (List.getLast_mem hne)
  rw [readInt?, String.toList_ofList, trimSpace_append hlead hhead hlast,
    takeSign_append hlead hhead]
  dsimp only
  rw [digitRun_of_isDigit hne h]
  change (if (cs.map _).length ≤ digitLimit then _ else _) = _
  simp only [List.length_map, decide_eq_true_eq]
  rfl

end

theorem writeInt_eq (n : Int) :
    writeInt n = String.ofList ((if n < 0 then ['-'] else []) ++ Nat.toDigits 10 n.natAbs) := by
  rw [writeInt, Nat.repr_eq_ofList_toDigits, String.ofList_append]
  split_ifs
  · rfl
  · exact String.empty_append.symm

/-- A number that can be written is what its text denotes. -/
theorem readInt?_writeInt {n : Int} (hn : isWritable n = true) : readInt? (writeInt n) = some n := by
  have hdigits (limit : Nat) (hpos : 0 < limit) (h : n.natAbs < Nat.pow 10 limit) :
      (Nat.toDigits 10 n.natAbs).length ≤ limit :=
    (Nat.length_toDigits_le_iff (by decide) hpos).mpr h
  have hlength := hdigits digitLimit (by decide) (of_decide_eq_true hn)
  have hlead : (if n < 0 then ['-'] else []) ∈ leadingSigns := by
    split_ifs <;> decide
  rw [writeInt_eq, readInt?_of_isDigit hlead Nat.toDigits_ne_nil
    (fun c hc ↦ isDigit_of_mem_toDigits hc), if_pos hlength, signedValue, digitsValue_toDigits]
  by_cases hnegative : n < 0
  · rw [if_pos hnegative, if_pos rfl, Int.ofNat_natAbs_of_nonpos (Int.le_of_lt hnegative),
      Int.neg_neg]
  · rw [if_neg hnegative, if_neg nofun, Int.natAbs_of_nonneg (Int.not_lt.mp hnegative)]

/-- A number of no more than the allowed places can be written. -/
theorem isWritable_of_lt {n : Int} {places : Nat} (hplaces : places ≤ digitLimit)
    (hn : n.natAbs < Nat.pow 10 places) : isWritable n = true := by
  have hlimit (limit : Nat) (h : places ≤ limit) : n.natAbs < Nat.pow 10 limit :=
    Nat.lt_of_lt_of_le hn (Nat.pow_le_pow_right (by decide) h)
  exact decide_eq_true (hlimit digitLimit hplaces)

theorem isWritable_of_natAbs_le {n k : Int} (hn : isWritable n = true) (hk : k.natAbs ≤ n.natAbs) :
    isWritable k = true :=
  decide_eq_true (Nat.lt_of_le_of_lt hk (of_decide_eq_true hn))

theorem isWritable_signedValue {cs : List Char} (h : ∀ c ∈ cs, Text.isDigit c = true)
    (hlength : cs.length ≤ digitLimit) (lead : List Char) :
    isWritable (signedValue lead cs) = true := by
  refine isWritable_of_lt hlength ?_
  rw [natAbs_signedValue]
  exact digitsValue_lt h

end Decimal

end VbaTrace
