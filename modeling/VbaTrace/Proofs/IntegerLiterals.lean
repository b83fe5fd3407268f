import VbaTrace.Proofs.Ladders
import VbaTrace.Proofs.WholeNumbers

/-!
Integer literals. A literal (`IntegerLiteral`) is a sign or the mark of a base, digits of that base,
and possibly a suffix. Wherever what follows cannot be part of it (`IntegerEnds`), the item rules of the
operator ladders read it as its number (`IntegerLiteral.readsAt_exprItem`,
`IntegerLiteral.readsAt_exprConstItem`).

A decimal literal is read as a number, written, and read once more, so it has to have a base-ten text:
what is written of a number with at most `digitLimit` digits is read as that number
(`Decimal.readInt?_writeInt`).
-/

set_option autoImplicit false

namespace VbaTrace

namespace Grammar

open Cursor (between)

/-! Literals -/

/-- The bases of integer literals. -/
inductive Base
  | decimal | octal | hexadecimal
deriving DecidableEq, Repr

namespace Base

def radix : Base → Nat
  | decimal => 10 | octal => 8 | hexadecimal => 16

/-- What may stand before the digits: a sign, or the mark of the base. -/
def leads : Base → List (List Char)
  | decimal => Decimal.leadingSigns
  | octal => [['&'], ['&', 'o'], ['&', 'O']]
  | hexadecimal => [['&', 'h'], ['&', 'H']]

def isDigit : Base → Char → Bool
  | decimal, c => c.isDigit
  | octal, c => CharSet.octalDigits.holds c
  | hexadecimal, c => CharSet.hexDigits.holds c

theorem toNat_lt_of_isDigit {base : Base} {c : Char} (h : base.isDigit c = true) :
    c.toNat < 128 := by
  cases base with
  | decimal => exact Text.toNat_lt_of_isDigit h
  | octal =>
    rw [isDigit, CharSet.holds, Bool.and_eq_true, decide_eq_true_eq, decide_eq_true_eq] at h
    exact Nat.lt_of_le_of_lt h.2 (by decide)
  | hexadecimal =>
    simp only [isDigit, CharSet.holds, Bool.or_eq_true, Bool.and_eq_true, decide_eq_true_eq] at h
    rcases h with (hdigit | ⟨-, hlower⟩) | ⟨-, hupper⟩
    · exact Text.toNat_lt_of_isDigit hdigit
    · exact Nat.lt_of_le_of_lt hlower (by decide)
    · exact Nat.lt_of_le_of_lt hupper (by decide)

/-- What holds of the digits among the ASCII characters holds of all digits. -/
theorem forall_isDigit (base : Base) {p : Char → Bool}
    (h : ∀ n < 128, base.isDigit (Char.ofNat n) = true → p (Char.ofNat n) = true) {c : Char}
    (hc : base.isDigit c = true) : p c = true :=
  Text.of_ascii (P := fun c ↦ base.isDigit c = true → p c = true) h (toNat_lt_of_isDigit hc) hc

end Base

/-- The value of a digit, in any of the bases. -/
def digitValue (c : Char) : Nat :=
  if c.isDigit then c.toNat - '0'.toNat
  else if c.isLower then c.toNat - 'a'.toNat + 10
  else c.toNat - 'A'.toNat + 10

theorem Base.baseDigit?_of_isDigit {base : Base} {c : Char} (h : base.isDigit c = true) :
    Decimal.baseDigit? base.radix c = some (digitValue c) := by
  have hvalue : (Decimal.baseDigit? base.radix c == some (digitValue c)) = true := by
    refine forall_isDigit base (p := fun c ↦ Decimal.baseDigit? base.radix c == some (digitValue c)) ?_ h
    cases base <;> decide +kernel
  exact eq_of_beq hvalue

/-- The suffixes that give the type of an integer. -/
def suffixSigns : List Char := ['%', '&', '^']

theorem mem_suffixSigns_of_none (x : Char) (hx : x ∈ (none : Option Char)) : x ∈ suffixSigns :=
  absurd hx (Option.not_mem_none x)

/-- An integer literal: a sign or mark, digits, and at most one suffix. A decimal literal has no more
digits than can be read. -/
structure IntegerLiteral where
  base : Base
  lead : List Char
  digits : List Char
  suffix : Option Char
  lead_mem : lead ∈ base.leads
  digits_ne_nil : digits ≠ []
  digits_valid : ∀ c ∈ digits, base.isDigit c = true
  suffix_mem : ∀ c ∈ suffix, c ∈ suffixSigns
  digits_short : base = .decimal → digits.length ≤ Decimal.digitLimit

namespace IntegerLiteral

def text (t : IntegerLiteral) : List Char :=
  t.lead ++ t.digits ++ t.suffix.toList

def magnitude (t : IntegerLiteral) : Nat :=
  Decimal.ofDigits t.base.radix (t.digits.map digitValue)

def value (t : IntegerLiteral) : Int :=
  if t.lead = ['-'] then -t.magnitude else t.magnitude

end IntegerLiteral

/-- The signs that make a number a fraction. -/
def fractionSigns : List Char := ['!', '#', '@', '.']

/-- The character is no part of an integer literal, nor of a fraction that begins with one. -/
structure EndsInteger (c : Char) : Prop where
  visible : isVisible c = true
  decimal : Text.isDigit c = false
  octal : CharSet.octalDigits.holds c = false
  hexadecimal : CharSet.hexDigits.holds c = false
  suffix : suffixSigns.contains c = false
  fraction : (fractionSigns.any fun w ↦ agrees w c) = false

instance (c : Char) : Decidable (EndsInteger c) :=
  decidable_of_iff (isVisible c = true ∧ Text.isDigit c = false ∧
    CharSet.octalDigits.holds c = false ∧ CharSet.hexDigits.holds c = false ∧
    suffixSigns.contains c = false ∧ (fractionSigns.any fun w ↦ agrees w c) = false)
    ⟨fun ⟨h₁, h₂, h₃, h₄, h₅, h₆⟩ ↦ ⟨h₁, h₂, h₃, h₄, h₅, h₆⟩,
      fun ⟨h₁, h₂, h₃, h₄, h₅, h₆⟩ ↦ ⟨h₁, h₂, h₃, h₄, h₅, h₆⟩⟩

theorem endsInteger_of_all {signs : List Char} (h : (signs.all fun x ↦ EndsInteger x) = true) :
    ∀ x ∈ signs, EndsInteger x :=
  fun x hx ↦ of_decide_eq_true (List.all_eq_true.mp h x hx)

/-! The parts of a literal -/

theorem Ahead.head_any {signs rest : List Char} (h : Ahead signs rest) {p : Char → Bool}
    (hspace : p ' ' = false) (hsigns : ∀ x ∈ signs, p x = false) : rest.head?.any p = false := by
  obtain ⟨n, more, rfl, hmore⟩ := h
  cases n with
  | zero =>
    rw [List.replicate_zero, List.nil_append]
    cases hhead : more.head? with
    | none => rfl
    | some x => exact hsigns x (hmore x hhead)
  | succ n => exact hspace

theorem scan_word {set : CharSet} {w rest : List Char} (hne : w ≠ [])
    (hw : ∀ x ∈ w, set.holds x = true) (hrest : rest.head?.any set.holds = false)
    (front : List Char) :
    (Lexeme.word set set).scan (between front (w ++ rest)) =
      some (between (front ++ w) rest, some (String.ofList w)) := by
  obtain ⟨x, xs, rfl⟩ := List.exists_cons_of_ne_nil hne
  have hstep : (between front (x :: xs ++ rest)).step = between (front ++ [x]) (xs ++ rest) :=
    (Cursor.between_step front x (xs ++ rest)).symm
  have hskip := Cursor.skipWhile_between (front ++ [x])
    (fun y hy ↦ hw y (List.mem_cons_of_mem x hy)) hrest
  rw [List.append_assoc, List.singleton_append] at hskip
  rw [Lexeme.scan]
  change (if set.holds x = true then _ else _) = _
  rw [if_pos (hw x List.mem_cons_self), hstep, hskip]
  dsimp only
  rw [Cursor.textTo_between]

section

variable {digits rest : List Char} (hne : digits ≠ [])
  (hdigits : ∀ x ∈ digits, Text.isDigit x = true)
  (hrest : rest.head?.any Text.isDigit = false)

include hdigits hrest in
theorem skipWhile_digits (front : List Char) :
    (between front (digits ++ rest)).skipWhile Text.isDigit = between (front ++ digits) rest :=
  Cursor.skipWhile_between front hdigits hrest

include hne in
theorem offset_digits_ne (front rest : List Char) :
    ¬((between (front ++ digits) rest).offset == (between front (digits ++ rest)).offset) = true := by
  have hlength : 0 < digits.length := List.length_pos_iff.mpr hne
  simp only [Cursor.between_offset, List.length_append, beq_iff_eq]
  omega

include hne hdigits hrest

theorem scan_unsignedDigits (front : List Char) :
    Lexeme.signedDigits.scan (between front (digits ++ rest)) =
      some (between (front ++ digits) rest, some (String.ofList digits)) := by
  have hskip := skipWhile_digits hdigits hrest front
  have hmoved := offset_digits_ne hne front rest
  obtain ⟨x, xs, rfl⟩ := List.exists_cons_of_ne_nil hne
  have hx := hdigits x List.mem_cons_self
  unfold Lexeme.scan
  dsimp only
  split
  · next heq =>
    rw [(List.cons.inj heq).1] at hx
    exact absurd hx (by decide)
  · next heq =>
    rw [(List.cons.inj heq).1] at hx
    exact absurd hx (by decide)
  · rw [hskip, if_neg hmoved, Cursor.textTo_between]

theorem scan_signedDigits {lead : List Char} (hlead : lead ∈ Decimal.leadingSigns)
    (front : List Char) :
    Lexeme.signedDigits.scan (between front (lead ++ (digits ++ rest))) =
      some (between (front ++ (lead ++ digits)) rest, some (String.ofList (lead ++ digits))) := by
  have hsigned (x : Char) :
      (if ((between front (x :: (digits ++ rest))).step.skipWhile Text.isDigit).offset ==
          (between front (x :: (digits ++ rest))).step.offset then none
        else some ((between front (x :: (digits ++ rest))).step.skipWhile Text.isDigit,
          some ((between front (x :: (digits ++ rest))).textTo
            ((between front (x :: (digits ++ rest))).step.skipWhile Text.isDigit)))) =
        some (between (front ++ x :: digits) rest, some (String.ofList (x :: digits))) := by
    have hstep : (between front (x :: (digits ++ rest))).step =
        between (front ++ [x]) (digits ++ rest) :=
      (Cursor.between_step front x (digits ++ rest)).symm
    have htext := Cursor.textTo_between front (x :: digits) rest
    rw [List.cons_append] at htext
    rw [hstep, skipWhile_digits hdigits hrest, if_neg (offset_digits_ne hne (front ++ [x]) rest),
      List.append_assoc, List.singleton_append, htext]
  simp only [Decimal.leadingSigns, List.mem_cons, List.not_mem_nil, or_false] at hlead
  rcases hlead with rfl | rfl | rfl
  · exact scan_unsignedDigits hne hdigits hrest front
  · exact hsigned '+'
  · exact hsigned '-'

end

theorem ends_integerSuffix {suffix : Option Char} (hsuffix : ∀ x ∈ suffix, x ∈ suffixSigns)
    {rest : List Char} (hrest : rest.head?.any suffixSigns.contains = false) (depth : Nat)
    (front : List Char) :
    Pattern.integerSuffix.Ends depth true Mode.normal.tighten
      (between front (suffix.toList ++ rest))
      (.matched (between (front ++ suffix.toList) rest) .empty) := by
  cases suffix with
  | none =>
    have hscan : (Lexeme.sign (.listed suffixSigns)).scan (between front rest) = none :=
      scan_of_refuses ((Bool.not_eq_true' _).mpr hrest)
    rw [Option.toList_none, List.append_nil]
    exact .drop (.optional_of_failed rfl (.lexeme_of_none rfl hscan depth)) rfl
  | some x =>
    have hscan : (Lexeme.sign (.listed suffixSigns)).scan (between front (x :: rest)) =
        some (between (front ++ [x]) rest, some (String.singleton x)) := by
      rw [Cursor.between_step]
      exact if_pos (List.contains_iff_mem.mpr (hsuffix x rfl))
    exact .drop (.optional_of_matched rfl (.lexeme rfl hscan depth)) rfl

theorem head_any_suffix {suffix : Option Char} (hsuffix : ∀ x ∈ suffix, x ∈ suffixSigns)
    {p : Char → Bool} (hp : suffixSigns.any p = false) {rest : List Char}
    (hrest : rest.head?.any p = false) : (suffix.toList ++ rest).head?.any p = false := by
  cases suffix with
  | none => exact hrest
  | some x => exact Bool.eq_false_iff.mpr (List.any_eq_false.mp hp x (hsuffix x rfl))

theorem misses_of_endsInteger {signs : List Char} (hsigns : ∀ x ∈ signs, EndsInteger x) {w : Char}
    (hw : w ∈ fractionSigns) : (Lexeme.caseless [w]).misses signs = true := by
  rw [Lexeme.misses, Bool.and_eq_true, List.all_eq_true]
  refine ⟨rfl, fun x hx ↦ ?_⟩
  rw [(hsigns x hx).visible, Bool.true_and]
  have hw := List.any_eq_false.mp (hsigns x hx).fraction w hw
  exact (Bool.not_eq_true' _).mpr (Bool.eq_false_iff.mpr hw)

/-- What follows is no part of an integer literal, nor of a fraction that begins with one. -/
structure IntegerEnds (rest : List Char) : Prop where
  decimal : rest.head?.any Text.isDigit = false
  octal : rest.head?.any CharSet.octalDigits.holds = false
  hexadecimal : rest.head?.any CharSet.hexDigits.holds = false
  suffix : rest.head?.any suffixSigns.contains = false
  fraction : ∀ w ∈ fractionSigns, ∀ depth front,
    (Pattern.lexeme (.caseless [w])).Ends depth true .normal (between front rest) .failed

theorem Ahead.integerEnds {signs rest : List Char} (hrest : Ahead signs rest)
    (hsigns : ∀ x ∈ signs, EndsInteger x) : IntegerEnds rest where
  decimal := hrest.head_any (by decide) fun x hx ↦ (hsigns x hx).decimal
  octal := hrest.head_any (by decide) fun x hx ↦ (hsigns x hx).octal
  hexadecimal := hrest.head_any (by decide) fun x hx ↦ (hsigns x hx).hexadecimal
  suffix := hrest.head_any (by decide) fun x hx ↦ (hsigns x hx).suffix
  fraction _ hw := Lexeme.ends_of_misses (misses_of_endsInteger hsigns hw) hrest

/-- What follows is no digit and no suffix of a number, but may be the point of a fraction. -/
structure NumberEnds (rest : List Char) : Prop where
  digit : rest.head?.any Text.isDigit = false
  suffix : rest.head?.any suffixSigns.contains = false
  kind : ∀ w ∈ ['!', '#', '@'], ∀ depth front,
    (Pattern.lexeme (.caseless [w])).Ends depth true .normal (between front rest) .failed

theorem IntegerEnds.numberEnds {rest : List Char} (h : IntegerEnds rest) : NumberEnds rest where
  digit := h.decimal
  suffix := h.suffix
  kind w hw := h.fraction w (List.mem_append_left ['.'] hw)

/-- No suffix of a fraction comes next. -/
theorem ends_floatSuffix {rest : List Char} (hrest : NumberEnds rest) (depth : Nat)
    (front : List Char) :
    Pattern.floatSuffix.Ends depth true .normal (between front rest)
      (.matched (between front rest) .empty) := by
  have hmissed (w : Char) (hw : w ∈ ['!', '#', '@']) := hrest.kind w hw depth front
  exact .drop (.optional_of_failed rfl (.first_of_failed (hmissed '!' (by decide))
    (.first_of_failed (hmissed '#' (by decide)) (hmissed '@' (by decide))))) rfl

/-! Digits of a base -/

theorem mapM_baseDigit? {base : Base} {cs : List Char} (h : ∀ c ∈ cs, base.isDigit c = true) :
    cs.mapM (Decimal.baseDigit? base.radix) = some (cs.map digitValue) := by
  induction cs with
  | nil => rfl
  | cons c cs ih =>
    rw [List.mapM_cons, Base.baseDigit?_of_isDigit (h c List.mem_cons_self),
      ih fun d hd ↦ h d (List.mem_cons_of_mem c hd)]
    rfl

theorem readBase?_of_isDigit {base : Base} {cs : List Char} (hne : cs ≠ [])
    (h : ∀ c ∈ cs, base.isDigit c = true) :
    Decimal.readBase? base.radix cs = some (Decimal.ofDigits base.radix (cs.map digitValue)) := by
  have hempty : ¬cs.isEmpty = true := by rwa [List.isEmpty_iff]
  rw [Decimal.readBase?, if_neg hempty, mapM_baseDigit? h]
  rfl

/-! Builders -/

theorem built_wholeNumbers {s : String} {n : Int} (h : Decimal.readInt? s = some n) (c : Cursor) :
    (Outcome.matched c (.one (.text s))).built .wholeNumbers = .matched c (.one (.int n)) := by
  have hdisplay : (Value.text s).display = s := rfl
  refine Outcome.built_of_make rfl ?_ c
  change readWholeNumbers [.text s] = _
  rw [readWholeNumbers, hdisplay, h]
  rfl

theorem built_wholeNumbers_of_none {s : String} (h : Decimal.readInt? s = none) (c : Cursor) :
    (Outcome.matched c (.one (.text s))).built .wholeNumbers = .faulty .wrongValue := by
  have hdisplay : (Value.text s).display = s := rfl
  have hread : Builder.wholeNumbers.apply (.one (.text s)) = .faulty .wrongValue := by
    rw [Builder.apply_of_not_isLogged rfl]
    change readWholeNumbers [.text s] = _
    rw [readWholeNumbers, hdisplay, h]
  rw [Outcome.built, hread]

theorem built_decimal {s : String} {n : Int} (h : Decimal.readInt? s = some n) (c : Cursor) :
    (Outcome.matched c (.one (.text s))).built .decimal = .matched c (.one (.int n)) := by
  have hdisplay : (Value.text s).display = s := rfl
  refine Outcome.built_of_make rfl ?_ c
  rw [Builder.make]
  dsimp only [Tokens.one, Tokens.items]
  rw [hdisplay, h]

theorem built_number {base : Nat} {b : Builder} (hb : ∀ t, b.apply t = buildNumber base t)
    {cs : List Char} {n : Nat} (h : Decimal.readBase? base cs = some n) (c : Cursor) :
    (Outcome.matched c (.one (.text (String.ofList cs)))).built b = .matched c (.one (.int n)) := by
  have hdisplay : (Value.text (String.ofList cs)).display.toList = cs := String.toList_ofList
  refine Outcome.built_of_apply ?_ c
  rw [hb, buildNumber]
  dsimp only [Tokens.one, Tokens.items]
  rw [hdisplay, h]

/-! Decimal numbers -/

section

variable {lead digits rest : List Char} (hlead : lead ∈ Decimal.leadingSigns) (hne : digits ≠ [])
  (hdigits : ∀ x ∈ digits, Text.isDigit x = true)
include hlead hne hdigits

/-- A number of a sign, digits and at most one suffix is read, where no more of it comes next. -/
theorem ends_decimalLiteral (hlength : digits.length ≤ Decimal.digitLimit) {suffix : Option Char}
    (hsuffix : ∀ x ∈ suffix, x ∈ suffixSigns) (hrest : NumberEnds rest) (depth : Nat)
    (front : List Char) :
    Pattern.decimalLiteral.Ends depth false .normal
      (between front (lead ++ digits ++ suffix.toList ++ rest))
      (.matched (between (front ++ (lead ++ digits ++ suffix.toList)) rest)
        (.one (.int (Decimal.signedValue lead digits)))) := by
  have hnext : (suffix.toList ++ rest).head?.any Text.isDigit = false :=
    head_any_suffix hsuffix (by decide) hrest.digit
  have hread := Decimal.readInt?_of_isDigit hlead hne hdigits
  rw [if_pos hlength] at hread
  have hscan := scan_signedDigits hne hdigits hnext hlead front
  have hends := ends_integerSuffix hsuffix hrest.suffix depth (front ++ (lead ++ digits))
  have hnumber : (Pattern.build .wholeNumbers (.lexeme .signedDigits)).Ends depth false
      Mode.normal.tighten (between front (lead ++ (digits ++ (suffix.toList ++ rest))))
      (.matched (between (front ++ (lead ++ digits)) (suffix.toList ++ rest))
        (.one (.int (Decimal.signedValue lead digits)))) :=
    .build rfl (.lexeme rfl hscan depth) (built_wholeNumbers hread _)
  have hjoined : (Pattern.joined (.build .wholeNumbers (.lexeme .signedDigits) ++
      Pattern.integerSuffix)).Ends depth false .normal
      (between front (lead ++ (digits ++ (suffix.toList ++ rest))))
      (.matched (between (front ++ (lead ++ digits) ++ suffix.toList) rest)
        (.one (.text (Decimal.writeInt (Decimal.signedValue lead digits) ++ "")))) :=
    .joined rfl (.seq rfl hnumber hends rfl) rfl
  have hfraction := ends_floatSuffix hrest depth (front ++ (lead ++ digits) ++ suffix.toList)
  have hwritten := Decimal.readInt?_writeInt (Decimal.isWritable_signedValue hdigits hlength lead)
  rw [String.append_empty] at hjoined
  simp only [List.append_assoc] at hjoined hfraction ⊢
  exact .build rfl (.seq rfl hjoined hfraction rfl) (built_decimal hwritten _)

/-- A number of too many digits is at fault. -/
theorem ends_decimalLiteral_of_long (hlength : Decimal.digitLimit < digits.length)
    (hrest : rest.head?.any Text.isDigit = false) (depth : Nat) (front : List Char) :
    Pattern.decimalLiteral.Ends depth false .normal (between front (lead ++ (digits ++ rest)))
      (.faulty .wrongValue) := by
  have hread := Decimal.readInt?_of_isDigit hlead hne hdigits
  rw [if_neg (Nat.not_le.mpr hlength)] at hread
  have hscan := scan_signedDigits hne hdigits hrest hlead front
  have hnumber : (Pattern.build .wholeNumbers (.lexeme .signedDigits)).Ends depth false
      Mode.normal.tighten (between front (lead ++ (digits ++ rest))) (.faulty .wrongValue) :=
    .build rfl (.lexeme rfl hscan depth) (built_wholeNumbers_of_none hread _)
  exact .build rfl (.seq_of_faulty rfl (.joined rfl (.seq_of_faulty rfl hnumber) rfl)) rfl

end

namespace IntegerLiteral

variable {t : IntegerLiteral} {signs rest : List Char}

/-! Decimal literals -/

section

variable (hbase : t.base = .decimal)
include hbase

theorem lead_mem_leadingSigns : t.lead ∈ Decimal.leadingSigns := by
  have hlead := t.lead_mem
  rwa [hbase] at hlead

theorem isDigit_of_mem_digits {c : Char} (hc : c ∈ t.digits) : c.isDigit = true := by
  have hvalid := t.digits_valid c hc
  rwa [hbase] at hvalid

theorem value_eq_signedValue : t.value = Decimal.signedValue t.lead t.digits := by
  have hvalue {c : Char} (hc : c ∈ t.digits) : digitValue c = Text.digitOf c := by
    have hdigit := isDigit_of_mem_digits hbase hc
    rw [digitValue, if_pos hdigit, Text.digitOf, Text.digit?_of_ascii hdigit, Option.getD_some]
  rw [value, magnitude, hbase, List.map_congr_left fun c hc ↦ hvalue hc]
  rfl

theorem isWritable_value : Decimal.isWritable t.value = true := by
  rw [value_eq_signedValue hbase]
  exact Decimal.isWritable_signedValue
    (fun c hc ↦ Text.isDigit_of_ascii (isDigit_of_mem_digits hbase hc)) (t.digits_short hbase) t.lead

theorem ends_decimal (hrest : NumberEnds rest) (depth : Nat) (front : List Char) :
    Pattern.decimalLiteral.Ends depth false .normal (between front (t.text ++ rest))
      (.matched (between (front ++ t.text) rest) (.one (.int t.value))) := by
  rw [value_eq_signedValue hbase]
  exact ends_decimalLiteral (lead_mem_leadingSigns hbase) t.digits_ne_nil
    (fun c hc ↦ Text.isDigit_of_ascii (isDigit_of_mem_digits hbase hc)) (t.digits_short hbase)
    t.suffix_mem hrest depth front

end

end IntegerLiteral

/-! Literals with the mark of a base -/

/-- The bases whose literals begin with a mark. -/
inductive Base.IsMarked : Base → CharSet → Pattern → Builder → Prop
  | octal : IsMarked .octal .octalDigits (.lit "&" ++ .optional (.anyCase "o")) .octal
  | hexadecimal : IsMarked .hexadecimal .hexDigits (.anyCase "&h") .hexadecimal

/-- The mark of octal literals has a letter or not. -/
theorem ends_octalMark {letter : List Char} (hletter : letter ∈ [[], ['o'], ['O']]) (depth : Nat)
    (front rest : List Char)
    (hrest : letter = [] → (Lexeme.caseless ['o']).refuses rest.head? = true) :
    ∃ tokens, (Pattern.lit "&" ++ .optional (.anyCase "o")).Ends depth false Mode.normal.tighten
      (between front ('&' :: letter ++ rest))
      (.matched (between (front ++ '&' :: letter) rest) tokens) := by
  have hsign : (Pattern.lit "&").Ends depth false Mode.normal.tighten
      (between front (['&'] ++ (letter ++ rest)))
      (.matched (between (front ++ ['&']) (letter ++ rest)) (.one (.text (String.ofList ['&'])))) :=
    .lexeme rfl (Cursor.scan_exact front ['&'] (letter ++ rest)) depth
  have hfront : front ++ '&' :: letter = front ++ ['&'] ++ letter := by simp
  rw [hfront]
  by_cases hempty : letter = []
  · subst hempty
    have hscan : (Lexeme.caseless ['o']).scan (between (front ++ ['&']) rest) = none :=
      scan_of_refuses (hrest rfl)
    rw [List.append_nil]
    exact ⟨_, .seq rfl hsign (.optional_of_failed rfl (.lexeme_of_none rfl hscan depth)) rfl⟩
  · have hspellings : ∀ w ∈ [[], ['o'], ['O']], w ≠ [] →
        isAscii w = true ∧ w.map Char.toUpper = ['o'].map Char.toUpper := by
      decide
    obtain ⟨hascii, hcase⟩ := hspellings letter hletter hempty
    have hscan := Cursor.scan_caseless (front ++ ['&']) rest hascii hcase
    exact ⟨_, .seq rfl hsign (.optional_of_matched rfl (.lexeme rfl hscan depth)) rfl⟩

namespace Base.IsMarked

variable {base : Base} {set : CharSet} {mark : Pattern} {b : Builder}

theorem exists_of_ne (h : base ≠ .decimal) : ∃ set mark b, base.IsMarked set mark b := by
  cases base with
  | decimal => exact absurd rfl h
  | octal => exact ⟨_, _, _, octal⟩
  | hexadecimal => exact ⟨_, _, _, hexadecimal⟩

theorem holds_eq (h : base.IsMarked set mark b) : set.holds = base.isDigit := by
  cases h <;> rfl

theorem head_any_of_integerEnds (h : base.IsMarked set mark b) {rest : List Char}
    (hrest : IntegerEnds rest) : rest.head?.any set.holds = false := by
  cases h with
  | octal => exact hrest.octal
  | hexadecimal => exact hrest.hexadecimal

theorem any_suffixSigns (h : base.IsMarked set mark b) : suffixSigns.any set.holds = false := by
  cases h <;> decide

theorem apply_eq (h : base.IsMarked set mark b) (t : Tokens) :
    b.apply t = buildNumber base.radix t := by
  cases h <;> exact Builder.apply_of_not_isLogged rfl t

theorem ends_mark (h : base.IsMarked set mark b) {lead rest : List Char} (hlead : lead ∈ base.leads)
    (hrest : rest.head?.any set.holds = true) (depth : Nat) (front : List Char) :
    ∃ tokens, mark.Ends depth false Mode.normal.tighten (between front (lead ++ rest))
      (.matched (between (front ++ lead) rest) tokens) := by
  cases h with
  | octal =>
    obtain ⟨letter, rfl, hletter⟩ : ∃ letter, lead = '&' :: letter ∧ letter ∈ [[], ['o'], ['O']] := by
      simp only [leads, List.mem_cons, List.not_mem_nil, or_false] at hlead
      rcases hlead with rfl | rfl | rfl
      · exact ⟨[], rfl, by decide⟩
      · exact ⟨['o'], rfl, by decide⟩
      · exact ⟨['O'], rfl, by decide⟩
    refine ends_octalMark hletter depth front rest fun _ ↦ ?_
    obtain ⟨x, hx, hdigit⟩ := (Option.any_eq_true _ _).mp hrest
    have hnone : (!agrees 'o' x) = true :=
      forall_isDigit .octal (p := fun x ↦ !agrees 'o' x) (by decide +kernel) hdigit
    rw [hx]
    exact hnone
  | hexadecimal =>
    have hspellings : ∀ w ∈ Base.hexadecimal.leads,
        isAscii w = true ∧ w.map Char.toUpper = ['&', 'h'].map Char.toUpper := by
      decide
    obtain ⟨hascii, hcase⟩ := hspellings lead hlead
    exact ⟨_, .lexeme rfl (Cursor.scan_caseless front rest hascii hcase) depth⟩

end Base.IsMarked

namespace IntegerLiteral

variable {t : IntegerLiteral} {signs rest : List Char} {set : CharSet} {mark : Pattern} {b : Builder}

/-- The characters with which a literal can begin. -/
def starts : List Char := '+' :: '-' :: '&' :: (List.range 10).map Nat.digitChar

theorem head_text_of_isMarked (h : t.base.IsMarked set mark b) : t.text.head? = some '&' := by
  have hmarks : ∀ base ∈ [Base.octal, .hexadecimal], ∀ w ∈ base.leads, w.head? = some '&' := by
    decide
  have hlead : t.lead.head? = some '&' := by
    refine hmarks t.base ?_ t.lead t.lead_mem
    generalize t.base = base at h
    cases h <;> decide
  rw [text, List.append_assoc, List.head?_append, hlead]
  rfl

theorem head_text (t : IntegerLiteral) : ∃ x ∈ starts, t.text.head? = some x := by
  by_cases hbase : t.base = .decimal
  · have hlead := lead_mem_leadingSigns hbase
    simp only [Decimal.leadingSigns, List.mem_cons, List.not_mem_nil, or_false] at hlead
    rcases hlead with hlead | hlead | hlead
    · obtain ⟨c, cs, hdigits⟩ := List.exists_cons_of_ne_nil t.digits_ne_nil
      have hc : Base.decimal.isDigit c = true :=
        isDigit_of_mem_digits hbase (hdigits ▸ List.mem_cons_self)
      have hmem : starts.contains c = true :=
        Base.forall_isDigit .decimal (p := starts.contains) (by decide +kernel) hc
      refine ⟨c, List.contains_iff_mem.mp hmem, ?_⟩
      rw [text, hlead, hdigits]
      rfl
    · refine ⟨'+', by decide, ?_⟩
      rw [text, hlead]
      rfl
    · refine ⟨'-', by decide, ?_⟩
      rw [text, hlead]
      rfl
  · obtain ⟨_, _, _, hmarked⟩ := Base.IsMarked.exists_of_ne hbase
    exact ⟨'&', by decide, head_text_of_isMarked hmarked⟩

theorem startsVisibly_text (t : IntegerLiteral) : startsVisibly t.text = true := by
  have hvisible : starts.all isVisible = true := by decide
  obtain ⟨x, hx, hhead⟩ := t.head_text
  rw [startsVisibly, hhead]
  exact List.all_eq_true.mp hvisible x hx

theorem tab_not_mem_text (t : IntegerLiteral) : '\t' ∉ t.text := by
  have hlead : '\t' ∉ t.lead := by
    have hleads : ∀ base ∈ [Base.decimal, .octal, .hexadecimal], ∀ w ∈ base.leads, '\t' ∉ w := by
      decide
    exact hleads t.base (by cases t.base <;> decide) t.lead t.lead_mem
  have hdigits : '\t' ∉ t.digits := by
    intro hmem
    have hdigit := t.digits_valid '\t' hmem
    revert hdigit
    cases t.base <;> decide
  have hsuffix : '\t' ∉ t.suffix.toList := by
    intro hmem
    exact absurd (t.suffix_mem '\t' (Option.mem_toList.mp hmem)) (by decide)
  simp only [text, List.mem_append, hlead, hdigits, hsuffix, or_self, not_false_eq_true]

theorem value_of_isMarked (h : t.base.IsMarked set mark b) : t.value = t.magnitude := by
  have hlead : t.lead ≠ ['-'] := by
    intro heq
    have hhead := head_text_of_isMarked h
    rw [text, heq] at hhead
    exact absurd (Option.some.inj hhead) (by decide)
  exact if_neg hlead

/-- A mark, digits of the base, and a suffix are read as a number. -/
theorem ends_marked (h : t.base.IsMarked set mark b) (hrest : IntegerEnds rest) (depth : Nat)
    (front : List Char) (skip : Bool) :
    (Pattern.build b (.joined (.drop mark ++ .lexeme (.word set set) ++
      Pattern.integerSuffix))).Ends depth skip .normal (between front (t.text ++ rest))
        (.matched (between (front ++ t.text) rest) (.one (.int t.value))) := by
  have hat := at_of_startsVisibly t.startsVisibly_text front rest
  have htext : t.text ++ rest = t.lead ++ (t.digits ++ (t.suffix.toList ++ rest)) := by
    simp [text]
  have hfront : front ++ t.lead ++ t.digits ++ t.suffix.toList = front ++ t.text := by
    simp [text]
  have hdigits (c : Char) (hc : c ∈ t.digits) : set.holds c = true :=
    h.holds_eq ▸ t.digits_valid c hc
  have hfirst : (t.digits ++ (t.suffix.toList ++ rest)).head?.any set.holds = true := by
    obtain ⟨c, cs, hcs⟩ := List.exists_cons_of_ne_nil t.digits_ne_nil
    rw [hcs]
    exact hdigits c (hcs ▸ List.mem_cons_self)
  have hnext : (t.suffix.toList ++ rest).head?.any set.holds = false :=
    head_any_suffix t.suffix_mem h.any_suffixSigns (h.head_any_of_integerEnds hrest)
  obtain ⟨tokens, hmark⟩ := h.ends_mark t.lead_mem hfirst depth front
  have hword := scan_word t.digits_ne_nil hdigits hnext (front ++ t.lead)
  have hsuffix := ends_integerSuffix t.suffix_mem hrest.suffix depth (front ++ t.lead ++ t.digits)
  rw [hfront] at hsuffix
  have hnumber : (Pattern.drop mark ++ .lexeme (.word set set)).Ends depth false
      Mode.normal.tighten (between front (t.text ++ rest))
      (.matched (between (front ++ t.lead ++ t.digits) (t.suffix.toList ++ rest))
        (.one (.text (String.ofList t.digits)))) := by
    rw [htext]
    exact .seq rfl (.drop hmark rfl) (.lexeme (enter_of_tight rfl _ _ _) hword depth) rfl
  have hread := readBase?_of_isDigit t.digits_ne_nil t.digits_valid
  have htoken : String.ofList t.digits ++ "" = String.ofList t.digits := String.append_empty
  rw [value_of_isMarked h]
  refine .build rfl (.joined (hat.skipped _ _ _) (.seq rfl hnumber hsuffix rfl) ?_)
    (built_number h.apply_eq hread _)
  exact congrArg (fun s ↦ Outcome.matched _ (.one (.text s))) htoken

/-! Rules that read literals -/

/-- Alternatives that are tried before literals. -/
def earlier : List Pattern :=
  [Pattern.kwDrop "ByVal", .ref .lExpression,
    .longest (.longest (.ref .chrCall) (.ref .functionCall)) (.ref .callElement), .ref .simpleName,
    .ref .ascCall, .ref .strReverseCall, .ref .chrConst, .ref .ascConst, .ref .strReverseConst,
    .ref .environConst, Pattern.booleanLiteral]

theorem ends_earlier (t : IntegerLiteral) {p : Pattern} (hp : p ∈ earlier) (front rest : List Char)
    (skip : Bool) (mode : Mode) :
    p.Ends 9 skip mode (between front (t.text ++ rest)) .failed := by
  have hall : (starts.all fun x ↦ earlier.all fun p ↦
      p.front (Rule.refuses (some x) 9) (some x) == .refused) = true := by
    decide +kernel
  obtain ⟨x, hx, hhead⟩ := t.head_text
  have hat := at_of_startsVisibly t.startsVisibly_text front rest
  rw [hhead] at hat
  have hfront := List.all_eq_true.mp (List.all_eq_true.mp hall x hx) p hp
  exact Pattern.ends_of_front hat (eq_of_beq hfront) skip mode

theorem ends_unmarked (h : t.base.IsMarked set mark b) {r : Rule}
    (hr : r ∈ [Rule.decimalLiteral, .floatLiteral]) (front rest : List Char) (skip : Bool)
    (mode : Mode) : (Pattern.ref r).Ends 9 skip mode (between front (t.text ++ rest)) .failed := by
  have hfront : ∀ r ∈ [Rule.decimalLiteral, .floatLiteral],
      (Pattern.ref r).front (Rule.refuses (some '&') 9) (some '&') = .refused := by
    decide +kernel
  have hat := at_of_startsVisibly t.startsVisibly_text front rest
  rw [head_text_of_isMarked h] at hat
  exact Pattern.ends_of_front hat (hfront r hr) skip mode

/-- A hexadecimal literal is no octal one. -/
theorem ends_octalLiteral (hbase : t.base = .hexadecimal) (depth : Nat) (front rest : List Char)
    (skip : Bool) :
    Pattern.octalLiteral.Ends depth skip .normal (between front (t.text ++ rest)) .failed := by
  obtain ⟨x, hx, hletter, hdigit⟩ : ∃ x, t.lead = ['&', x] ∧
      (Lexeme.caseless ['o']).refuses (some x) = true ∧
      (Lexeme.word .octalDigits .octalDigits).refuses (some x) = true := by
    have hlead := t.lead_mem
    rw [hbase] at hlead
    simp only [Base.leads, List.mem_cons, List.not_mem_nil, or_false] at hlead
    rcases hlead with hlead | hlead
    · exact ⟨'h', hlead, by decide, by decide⟩
    · exact ⟨'H', hlead, by decide, by decide⟩
  have hat := at_of_startsVisibly t.startsVisibly_text front rest
  have htext : t.text ++ rest = '&' :: [] ++ (x :: (t.digits ++ t.suffix.toList ++ rest)) := by
    simp [text, hx]
  rw [htext] at hat ⊢
  obtain ⟨tokens, hmark⟩ := ends_octalMark List.mem_cons_self depth front
    (x :: (t.digits ++ t.suffix.toList ++ rest)) fun _ ↦ hletter
  have hscan : (Lexeme.word .octalDigits .octalDigits).scan
      (between (front ++ ['&']) (x :: (t.digits ++ t.suffix.toList ++ rest))) = none :=
    scan_of_refuses hdigit
  have hdigits : (Pattern.lexeme (.word .octalDigits .octalDigits)).Ends depth true
      Mode.normal.tighten
      (between (front ++ ['&']) (x :: (t.digits ++ t.suffix.toList ++ rest))) .failed :=
    .lexeme_of_none (enter_of_tight rfl _ _ _) hscan depth
  exact .build rfl (.joined (hat.skipped _ _ _)
    (.seq_of_failed rfl (.seq rfl (.drop hmark rfl) hdigits rfl)) rfl) rfl

theorem readsAt_decimalLiteral (hbase : t.base = .decimal) (front : List Char) :
    ReadsAt 1 .decimalLiteral front IntegerEnds t.text (.int t.value) := by
  intro rest hrest
  have hat := at_of_startsVisibly t.startsVisibly_text front rest
  exact .rule (hat.enter _ _ _) (ends_decimal hbase hrest.numberEnds 0 front)

section

variable (t)

theorem ends_integer (hrest : IntegerEnds rest) (front : List Char) (skip : Bool) :
    Pattern.integer.Ends 9 skip .normal (between front (t.text ++ rest))
      (.matched (between (front ++ t.text) rest) (.one (.int t.value))) := by
  by_cases hbase : t.base = .decimal
  · have hdecimal := (readsAt_decimalLiteral hbase front).mono (by decide : 1 ≤ 9)
    exact .first_of_matched (hdecimal rest hrest)
  · obtain ⟨_, _, _, hmarked⟩ := Base.IsMarked.exists_of_ne hbase
    refine .first_of_failed (ends_unmarked hmarked (by decide) front rest true .normal) ?_
    have hread := ends_marked hmarked hrest 9 front true
    generalize hmark : t.base = base at hmarked
    cases hmarked with
    | octal => exact .first_of_matched hread
    | hexadecimal => exact .first_of_failed (ends_octalLiteral hmark 9 front rest true) hread

/-- A literal without a point behind it is no fraction. -/
theorem ends_floatLiteral (hrest : IntegerEnds rest) (front : List Char) :
    (Pattern.ref .floatLiteral).Ends 9 true .normal (between front (t.text ++ rest)) .failed := by
  by_cases hbase : t.base = .decimal
  · have hat := at_of_startsVisibly t.startsVisibly_text front rest
    have hwhole : (Pattern.ref .decimalLiteral).Ends 8 false .normal
        (between front (t.text ++ rest))
        (.matched (between (front ++ t.text) rest) (.one (.int t.value))) :=
      .rule rfl (ends_decimal hbase hrest.numberEnds 7 front)
    have hpoint := hrest.fraction '.' (by decide) 8 (front ++ t.text)
    exact .rule (hat.enter _ _ _) (.build rfl (.seq_of_failed rfl (.seq_of_failed rfl
      (.seq rfl hwhole (.drop hpoint rfl) rfl))) rfl)
  · obtain ⟨_, _, _, hmarked⟩ := Base.IsMarked.exists_of_ne hbase
    exact ends_unmarked hmarked (by decide) front rest true .normal

theorem readsAt_literal (front : List Char) :
    ReadsAt 10 .literal front IntegerEnds t.text (.int t.value) := by
  intro rest hrest
  have hat := at_of_startsVisibly t.startsVisibly_text front rest
  refine .rule (hat.enter _ _ _) (.build (o := .matched _ (.one (.int t.value))) rfl ?_ rfl)
  refine .first_of_failed (t.ends_earlier (by simp [earlier]) front rest true .normal) ?_
  exact .first_of_matched (t.ends_integer hrest front true)

theorem readsAt_exprItem (front : List Char) :
    ReadsAt 11 .exprItem front IntegerEnds t.text (.int t.value) := by
  intro rest hrest
  have hat := at_of_startsVisibly t.startsVisibly_text front rest
  have hearlier {p : Pattern} (hp : p ∈ earlier) (skip : Bool) :
      p.Ends 10 skip .normal (between front (t.text ++ rest)) .failed :=
    (t.ends_earlier hp front rest skip .normal).mono (by decide)
  have hbyValue : Pattern.byValue.Ends 10 false .normal (between front (t.text ++ rest))
      (.matched (between front (t.text ++ rest)) .empty) :=
    .optional_of_failed rfl (hearlier (by simp [earlier]) false)
  refine .rule (hat.enter _ _ _) (.seq (o := .matched _ (.one (.int t.value))) rfl hbyValue ?_ rfl)
  refine .first_of_failed ((t.ends_floatLiteral hrest front).mono (by decide)) ?_
  refine .first_of_failed (hearlier (by simp [earlier]) true) ?_
  refine .first_of_failed (hearlier (by simp [earlier]) true) ?_
  refine .first_of_failed (hearlier (by simp [earlier]) true) ?_
  refine .first_of_failed (hearlier (by simp [earlier]) true) ?_
  refine .first_of_failed (hearlier (by simp [earlier]) true) ?_
  exact .first_of_matched (t.readsAt_literal front rest hrest)

theorem readsAt_exprConstItem (front : List Char) :
    ReadsAt 11 .exprConstItem front IntegerEnds t.text (.int t.value) := by
  intro rest hrest
  have hat := at_of_startsVisibly t.startsVisibly_text front rest
  have hearlier {p : Pattern} (hp : p ∈ earlier) :
      p.Ends 10 true .normal (between front (t.text ++ rest)) .failed :=
    (t.ends_earlier hp front rest true .normal).mono (by decide)
  refine .rule (hat.enter _ _ _) ?_
  refine .first_of_failed (hearlier (by simp [earlier])) ?_
  refine .first_of_failed (hearlier (by simp [earlier])) ?_
  refine .first_of_failed (hearlier (by simp [earlier])) ?_
  refine .first_of_failed (hearlier (by simp [earlier])) ?_
  exact t.readsAt_literal front rest hrest

theorem reads_exprItem (hsigns : ∀ x ∈ signs, EndsInteger x) :
    Reads 11 .exprItem signs t.text (.int t.value) :=
  fun front rest hrest ↦ t.readsAt_exprItem front rest (hrest.integerEnds hsigns)

theorem reads_exprConstItem (hsigns : ∀ x ∈ signs, EndsInteger x) :
    Reads 11 .exprConstItem signs t.text (.int t.value) :=
  fun front rest hrest ↦ t.readsAt_exprConstItem front rest (hrest.integerEnds hsigns)

end

/-- A number in base ten, with neither sign nor suffix. -/
def ofNat (n : Nat) (hshort : (Nat.toDigits 10 n).length ≤ Decimal.digitLimit) : IntegerLiteral where
  base := .decimal
  lead := []
  digits := Nat.toDigits 10 n
  suffix := none
  lead_mem := List.mem_cons_self
  digits_ne_nil := Nat.toDigits_ne_nil
  digits_valid _ hc := Nat.isDigit_of_mem_toDigits (by decide) (by decide) hc
  suffix_mem := nofun
  digits_short _ := hshort

section

variable (n : Nat) (hshort : (Nat.toDigits 10 n).length ≤ Decimal.digitLimit)

theorem text_ofNat : (ofNat n hshort).text = Nat.toDigits 10 n :=
  List.append_nil _

theorem value_ofNat : (ofNat n hshort).value = n := by
  have hdigits : (Decimal.digitsValue (ofNat n hshort).digits : Int) = n :=
    congrArg Int.ofNat (Decimal.digitsValue_toDigits n)
  have hlead : (ofNat n hshort).lead ≠ ['-'] := (List.cons_ne_nil '-' []).symm
  rw [value_eq_signedValue rfl, Decimal.signedValue, if_neg hlead, hdigits]

end

end IntegerLiteral

end Grammar

end VbaTrace
