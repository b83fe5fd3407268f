import Mathlib.Algebra.Order.Field.Power
import Mathlib.Algebra.Order.Floor.Semifield
import Mathlib.Data.Int.Log
import Mathlib.Data.Rat.Floor
import Mathlib.Tactic.Linarith
import Mathlib.Tactic.Positivity
import Mathlib.Tactic.Ring
import VbaTrace.Decimal.Reading

/-!
Rounding as a function of the number that is rounded. The quotient of two whole numbers is formed
with bits to spare, which are then dropped (`dropBits`). What is left depends on the rational number
alone: it is counted in units of the last place that a floating-point number of this size has
(`lastPlace`), and rounded to the nearest count, the even one in a tie (`halfEven`, `dropBits_eq`). So
two fractions of one value give one floating-point number (`nearest_eq`), and so do two decimal
numbers (`Scientific.toFloat_eq`).
-/

set_option autoImplicit false

namespace VbaTrace

namespace Number

/-! Half to even -/

/-- The whole number nearest to `x`, which is not negative; the even one of two. -/
def halfEven (x : ℚ) : Nat :=
  if 1 / 2 < x - ⌊x⌋₊ ∨ x - ⌊x⌋₊ = 1 / 2 ∧ ⌊x⌋₊ % 2 = 1 then ⌊x⌋₊ + 1 else ⌊x⌋₊

theorem halfEven_div (a : Nat) {b : Nat} (hb : 0 < b) :
    halfEven ((a : ℚ) / b) =
      if b < 2 * (a % b) ∨ 2 * (a % b) = b ∧ a / b % 2 = 1 then a / b + 1 else a / b := by
  have hpos : (0 : ℚ) < b := by exact_mod_cast hb
  have hsplit : (a : ℚ) / b - (a / b : Nat) = (a % b : Nat) / b := by
    have hcast : (a : ℚ) = b * (a / b : Nat) + (a % b : Nat) := by
      exact_mod_cast (Nat.div_add_mod a b).symm
    rw [div_sub' hpos.ne', div_left_inj' hpos.ne']
    linarith
  have habove : (1 : ℚ) / 2 < (a % b : Nat) / b ↔ b < 2 * (a % b) := by
    rw [div_lt_div_iff₀ two_pos hpos, one_mul, mul_comm]
    exact_mod_cast Iff.rfl
  have hhalf : ((a % b : Nat) : ℚ) / b = 1 / 2 ↔ 2 * (a % b) = b := by
    rw [div_eq_div_iff hpos.ne' two_ne_zero, one_mul, mul_comm]
    exact_mod_cast Iff.rfl
  rw [halfEven, Nat.floor_div_eq_div, hsplit]
  simp only [habove, hhalf]

/-- Dropping the lowest bits of a quotient rounds half to even, when its remainder is told. -/
theorem dropBits_eq (n : Nat) {d drop : Nat} (hd : 0 < d) (hdrop : 0 < drop) :
    dropBits (n / d) drop (n % d != 0) = halfEven ((n : ℚ) / (d * 2 ^ drop)) := by
  obtain ⟨k, rfl⟩ := Nat.exists_eq_add_of_lt hdrop
  have hunit : Nat.pow 2 (0 + k + 1) = 2 * 2 ^ k := by
    rw [Nat.zero_add]
    exact Nat.pow_succ'
  have hden : (d : ℚ) * 2 ^ (0 + k + 1) = ((d * (2 * 2 ^ k) : Nat) : ℚ) := by
    rw [← hunit]
    push_cast [Nat.pow_eq]
    rfl
  have hpos : 0 < d * (2 * 2 ^ k) := by positivity
  have hleft := Nat.mod_lt n hd
  rw [hden, halfEven_div n hpos, ← Nat.div_div_eq_div_mul, Nat.mod_mul, dropBits, hunit]
  generalize n / d % (2 * 2 ^ k) = r
  generalize n / d / (2 * 2 ^ k) = high
  generalize n % d = t at *
  generalize 2 ^ k = h
  rcases Nat.lt_trichotomy r h with hr | rfl | hr
  · have hmul : d * (r + 1) ≤ d * h := Nat.mul_le_mul_left d hr
    rw [Nat.mul_succ] at hmul
    rw [if_neg (by omega), if_neg (by simp; omega), if_neg (by rw [Nat.mul_left_comm]; omega)]
  · rw [if_neg (by omega), Nat.mul_left_comm]
    by_cases ht : t = 0
    · simp [ht]
    · rw [if_pos (by simp [ht]), if_pos (by omega)]
  · have hmul : d * (h + 1) ≤ d * r := Nat.mul_le_mul_left d hr
    rw [Nat.mul_succ] at hmul
    rw [if_pos (by omega), if_pos (by rw [Nat.mul_left_comm]; omega)]

/-! The last place -/

/-- The place of the last bit of a floating-point number of this size. -/
def lastPlace (x : ℚ) : Int :=
  max (Int.log 2 x - 52) (-1074)

/-- The floating-point number nearest to a positive rational number. -/
def rounded (x : ℚ) : Float :=
  assemble (halfEven (x / 2 ^ lastPlace x)) (lastPlace x)

/-- The floating-point number for a rational number that is not negative: zero, or infinite, far
beyond the range, and the nearest one otherwise. -/
def ofRational (x : ℚ) : Float :=
  if x < 10 ^ (-401 : Int) then 0.0 else if 10 ^ (400 : Int) ≤ x then 1.0 / 0.0 else rounded x

/-- The floating-point number for a rational number of either sign. -/
def ofSigned (x : ℚ) : Float :=
  if x < 0 then -ofRational (-x) else ofRational x

theorem log_mul_zpow {x : ℚ} (hx : 0 < x) (s : Int) :
    Int.log 2 (x * 2 ^ s) = Int.log 2 x + s := by
  refine eq_of_forall_le_iff fun z ↦ ?_
  have hscaled : 0 < x * 2 ^ s := by positivity
  rw [← Int.zpow_le_iff_le_log one_lt_two hscaled, ← sub_le_iff_le_add,
    ← Int.zpow_le_iff_le_log one_lt_two hx, Nat.cast_ofNat, zpow_sub₀ two_ne_zero,
    div_le_iff₀ (by positivity)]

theorem log2_div {n d : Nat} (h : (1 : ℚ) ≤ n / d) :
    ((n / d).log2 : Int) = Int.log 2 ((n : ℚ) / d) := by
  rw [Int.log_of_one_le_right 2 h, Nat.floor_div_eq_div, Nat.log2_eq_log_two]

theorem log2_sub_le {num den : Nat} (hnum : 0 < num) (hden : 0 < den) :
    (num.log2 : Int) - den.log2 - 1 ≤ Int.log 2 ((num : ℚ) / den) := by
  have hpos : (0 : ℚ) < den := by exact_mod_cast hden
  have hlow : (2 : ℚ) ^ num.log2 ≤ num := by exact_mod_cast Nat.log2_self_le hnum.ne'
  have hhigh : (den : ℚ) ≤ 2 ^ (den.log2 + 1) := by exact_mod_cast Nat.lt_log2_self.le
  rw [← Int.zpow_le_iff_le_log one_lt_two (by positivity), Nat.cast_ofNat, le_div_iff₀ hpos]
  calc (2 : ℚ) ^ ((num.log2 : Int) - den.log2 - 1) * den
      ≤ 2 ^ ((num.log2 : Int) - den.log2 - 1) * 2 ^ (den.log2 + 1) := by gcongr
    _ = 2 ^ num.log2 := by
      rw [← zpow_natCast, ← zpow_add₀ two_ne_zero, ← zpow_natCast]
      congr 1
      push_cast
      ring
    _ ≤ num := hlow

/-- The numerator and the denominator between which a power of two is shared out. -/
theorem shifted_div (num den : Nat) (shift : Int) :
    ((if shift ≥ 0 then num * Nat.pow 2 shift.toNat else num : Nat) : ℚ) /
        (if shift ≥ 0 then den else den * Nat.pow 2 (-shift).toNat : Nat) =
      num / den * 2 ^ shift := by
  split_ifs with hshift
  · obtain ⟨k, rfl⟩ := Int.eq_ofNat_of_zero_le hshift
    rw [Int.toNat_natCast, zpow_natCast, div_mul_eq_mul_div]
    push_cast [Nat.pow_eq]
    rfl
  · obtain ⟨k, hk⟩ := Int.eq_ofNat_of_zero_le (by omega : 0 ≤ -shift)
    obtain rfl : shift = -k := by omega
    rw [neg_neg, Int.toNat_natCast, zpow_neg, zpow_natCast, ← div_eq_mul_inv, div_div]
    push_cast [Nat.pow_eq]
    rfl

/-- The nearest floating-point number depends on the value of the fraction alone. -/
theorem nearest_eq {num den : Nat} (hnum : 0 < num) (hden : 0 < den) :
    nearest num den = rounded ((num : ℚ) / den) := by
  have hvalue : (0 : ℚ) < num / den := by positivity
  have hlow := log2_sub_le hnum hden
  have hzero : ¬(num == 0) = true := by simp [hnum.ne']
  rw [nearest, if_neg hzero]
  dsimp only
  have hshifted := shifted_div num den (55 - ((num.log2 : Int) - den.log2))
  generalize hshift : 55 - ((num.log2 : Int) - den.log2) = shift at *
  have hd : 0 < if shift ≥ 0 then den else den * Nat.pow 2 (-shift).toNat := by
    split_ifs
    · exact hden
    · exact Nat.mul_pos hden (Nat.pow_pos two_pos)
  generalize (if shift ≥ 0 then num * Nat.pow 2 shift.toNat else num) = n at *
  generalize (if shift ≥ 0 then den else den * Nat.pow 2 (-shift).toNat) = d at *
  generalize (num : ℚ) / den = x at *
  have hlog : Int.log 2 ((n : ℚ) / d) = Int.log 2 x + shift := by
    rw [hshifted, log_mul_zpow hvalue]
  have hone : (1 : ℚ) ≤ n / d := by
    have hscaled : (0 : ℚ) < n / d := by
      rw [hshifted]
      positivity
    have hpow : ((2 : Nat) : ℚ) ^ (0 : Int) ≤ n / d :=
      (Int.zpow_le_iff_le_log one_lt_two hscaled).mpr (by omega)
    rwa [zpow_zero] at hpow
  have hbits := log2_div hone
  generalize (n / d).log2 = bits at *
  generalize hdrop : (if ((bits + 1 - 53 : Nat) : Int) - shift < -1074 then
    bits + 1 - 53 + (-1074 - (((bits + 1 - 53 : Nat) : Int) - shift)).toNat else bits + 1 - 53) = drop
  have hplace : (drop : Int) - shift = lastPlace x := by
    rw [lastPlace, ← hdrop]
    split_ifs <;> omega
  have hpos : 0 < drop := by
    rw [← hdrop]
    split_ifs <;> omega
  have hcount : (n : ℚ) / (d * 2 ^ drop) = x / 2 ^ lastPlace x := by
    rw [← div_div, hshifted, ← hplace, zpow_sub₀ two_ne_zero, zpow_natCast, div_div_eq_mul_div]
  rw [hplace, dropBits_eq n hd hpos, hcount, rounded]

end Number

/-! Decimal numbers -/

namespace Decimal

/-- The number that the digits and the power of ten denote. -/
def Scientific.value (s : Scientific) : ℚ :=
  s.digits * 10 ^ s.exponent

theorem lt_length_repr_iff {n k : Nat} : k < (Nat.repr n).length ↔ k = 0 ∨ 10 ^ k ≤ n := by
  rw [Nat.repr_eq_ofList_toDigits, String.length_ofList]
  have hpos : 0 < (Nat.toDigits 10 n).length := List.length_pos_iff.mpr Nat.toDigits_ne_nil
  rcases Nat.eq_zero_or_pos k with rfl | hk
  · simp [hpos]
  · rw [← not_le, Nat.length_toDigits_le_iff (by decide) hk, not_lt]
    simp [hk.ne']

namespace Scientific

/-- The number of digits and the power of ten tell the size of a decimal number. -/
theorem value_mem {s : Scientific} (h : s.digits ≠ 0) :
    s.value ∈ Set.Ico ((10 : ℚ) ^ ((Nat.repr s.digits).length + s.exponent - 1))
      (10 ^ ((Nat.repr s.digits).length + s.exponent)) := by
  have hlow {k : Nat} (hk : k < (Nat.repr s.digits).length) : 10 ^ k ≤ s.digits := by
    rcases lt_length_repr_iff.mp hk with rfl | hle
    · exact Nat.one_le_iff_ne_zero.mpr h
    · exact hle
  have hhigh : s.digits < 10 ^ (Nat.repr s.digits).length :=
    not_le.mp fun hle ↦ absurd (lt_length_repr_iff.mpr (.inr hle)) (lt_irrefl _)
  obtain ⟨k, hk⟩ := Nat.exists_eq_add_of_lt (lt_length_repr_iff.mpr (.inl rfl) :
    0 < (Nat.repr s.digits).length)
  rw [Nat.zero_add] at hk
  have hlow : (10 : ℚ) ^ (k : Int) ≤ s.digits := by
    rw [zpow_natCast]
    exact_mod_cast hlow (by omega : k < _)
  have hhigh : (s.digits : ℚ) < 10 ^ ((k + 1 : Nat) : Int) := by
    rw [zpow_natCast]
    exact_mod_cast hk ▸ hhigh
  have hfirst : ((k + 1 : Nat) : Int) + s.exponent - 1 = k + s.exponent := by
    push_cast
    ring
  rw [hk, hfirst, value, zpow_add₀ (by norm_num), zpow_add₀ (by norm_num)]
  exact ⟨by gcongr, by gcongr⟩

/-- The power of ten is a factor, or it divides. -/
theorem nearest_eq_rounded {s : Scientific} (h : s.digits ≠ 0) :
    (if s.exponent < 0 then Number.nearest s.digits (Nat.pow 10 s.exponent.natAbs)
      else Number.nearest (s.digits * Nat.pow 10 s.exponent.natAbs) 1) =
      Number.rounded s.value := by
  have hpos : 0 < s.digits := Nat.pos_of_ne_zero h
  have hpow : 0 < Nat.pow 10 s.exponent.natAbs := Nat.pow_pos (by decide)
  split_ifs with hexponent
  · have hvalue : (s.digits : ℚ) / (Nat.pow 10 s.exponent.natAbs : Nat) = s.value := by
      obtain ⟨k, hk⟩ := Int.eq_ofNat_of_zero_le (by omega : 0 ≤ -s.exponent)
      have hnegative : s.exponent = -k := by omega
      rw [value, hnegative, Int.natAbs_neg, Int.natAbs_natCast, zpow_neg, zpow_natCast,
        ← div_eq_mul_inv]
      push_cast [Nat.pow_eq]
      rfl
    rw [Number.nearest_eq hpos hpow, hvalue]
  · have hvalue : ((s.digits * Nat.pow 10 s.exponent.natAbs : Nat) : ℚ) / (1 : Nat) = s.value := by
      obtain ⟨k, hk⟩ := Int.eq_ofNat_of_zero_le (not_lt.mp hexponent)
      rw [value, hk, Int.natAbs_natCast, zpow_natCast, Nat.cast_one, div_one]
      push_cast [Nat.pow_eq]
      rfl
    rw [Number.nearest_eq (Nat.mul_pos hpos hpow) Nat.one_pos, hvalue]

/-- A decimal number is rounded by its value alone. -/
theorem toFloat_eq (s : Scientific) : s.toFloat = Number.ofRational s.value := by
  rw [toFloat, Number.ofRational]
  by_cases hzero : s.digits = 0
  · have hvalue : s.value < 10 ^ (-401 : Int) := by
      rw [value, hzero, Nat.cast_zero, zero_mul]
      positivity
    rw [if_pos (beq_iff_eq.mpr hzero), if_pos hvalue]
  rw [if_neg (mt eq_of_beq hzero)]
  dsimp only
  rw [nearest_eq_rounded hzero]
  obtain ⟨hlow, hhigh⟩ := value_mem hzero
  generalize ((Nat.repr s.digits).length : Int) + s.exponent = magnitude at *
  have hbelow {k : Int} (h : k < magnitude) : (10 : ℚ) ^ k ≤ s.value :=
    (zpow_le_zpow_right₀ (by norm_num) (by omega)).trans hlow
  have habove {k : Int} (h : magnitude ≤ k) : s.value < 10 ^ k :=
    hhigh.trans_le (zpow_le_zpow_right₀ (by norm_num) h)
  by_cases hlarge : magnitude > 400
  · rw [if_pos hlarge, if_neg (not_lt.mpr (hbelow (by omega))), if_pos (hbelow hlarge)]
  by_cases hsmall : magnitude < -400
  · rw [if_neg hlarge, if_pos hsmall, if_pos (habove (by omega))]
  · rw [if_neg hlarge, if_neg hsmall, if_neg (not_lt.mpr (hbelow (by omega))),
      if_neg (not_le.mpr (habove (by omega)))]

end Scientific

end Decimal

end VbaTrace
