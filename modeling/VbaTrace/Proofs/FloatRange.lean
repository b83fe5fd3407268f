import Mathlib.Tactic.NormNum
import VbaTrace.Number.Real
import VbaTrace.Proofs.NearestNumbers

/-!
Where floating-point numbers end. The bits of a number have an exponent and a mantissa (`fields`).
They tell what is unpacked (`unpacks_fields`), and packing it again or with the other sign leaves
them as they are (`fields_pack_unpack`, `fields_pack_neg`). So the bits that rounding assembles tell
whether the result is infinite or zero (`isInf_assemble`, `beq_zero_assemble`).

A rational number is rounded to infinity from half a unit beyond the largest finite number on
(`rangeEnd`, `isInf_rounded`), where the tie goes to the even neighbour. A whole number that reaches
this end has no floating-point number (`ofInt?_eq_none_iff`), and two whole numbers have no quotient
if the exact one reaches it (`quotient?_eq_none_iff`).
-/

set_option autoImplicit false

namespace VbaTrace.Number

open Float.Model (Format UnpackedFloat)
open Float.Model.UnpackedFloat

/-! Exponent and mantissa -/

/-- The exponent and the mantissa among the bits of a floating-point number. -/
def fields (b : BitVec 64) : BitVec 11 × BitVec 52 :=
  (@unpackExponent Format.binary64 b, @unpackMantissa Format.binary64 b)

theorem fields_packComponents (s : Sign) (e : BitVec 11) (m : BitVec 52) :
    fields (packComponents Format.binary64 s e m) = (e, m) :=
  Prod.ext (@unpackExponent_packComponents Format.binary64 s e m)
    (@unpackMantissa_packComponents Format.binary64 s e m)

theorem toNat_one_append (m : BitVec 52) : (1#1 ++ m).toNat = 2 ^ 52 + m.toNat := by
  rw [BitVec.toNat_append, ← Nat.shiftLeft_add_eq_or_of_lt m.isLt]
  rfl

/-- What is unpacked from an exponent and a mantissa. Without an exponent the mantissa stands in the
lowest place, and otherwise it has a leading bit. -/
inductive Unpacks (e : BitVec 11) (m : BitVec 52) : UnpackedFloat → Prop
  | infinity (s : Sign) (he : e = -1#11) (hm : m = 0#52) : Unpacks e m (.infinity s)
  | notANumber (he : e = -1#11) (hm : m ≠ 0#52) : Unpacks e m .notANumber
  | zero (s : Sign) (he : e = 0#11) (hm : m = 0#52) : Unpacks e m (.zero s)
  | lowest (s : Sign) (he : e = 0#11) (hm : m ≠ 0#52) (hpos : 0 < m.toNat) :
    Unpacks e m (.finite s m.toNat ((e.toNat : Int) - 1075 + 1) hpos)
  | leading (s : Sign) (hlow : e ≠ 0#11) (hhigh : e ≠ -1#11) (hpos : 0 < (1#1 ++ m).toNat) :
    Unpacks e m (.finite s (1#1 ++ m).toNat ((e.toNat : Int) - 1075) hpos)

theorem unpacks_fields (b : BitVec 64) :
    Unpacks (fields b).1 (fields b).2 (unpack Format.binary64 b) := by
  let s := Sign.ofBitVec (@unpackSign Format.binary64 b)
  by_cases hhigh : (fields b).1 = -1#11
  · by_cases hm : (fields b).2 = 0#52
    · have hunpack : unpack Format.binary64 b = .infinity s := (if_pos hhigh).trans (if_pos hm)
      exact hunpack ▸ .infinity s hhigh hm
    · have hunpack : unpack Format.binary64 b = .notANumber := (if_pos hhigh).trans (if_neg hm)
      exact hunpack ▸ .notANumber hhigh hm
  by_cases hlow : (fields b).1 = 0#11
  · by_cases hm : (fields b).2 = 0#52
    · have hunpack : unpack Format.binary64 b = .zero s :=
        (if_neg hhigh).trans ((if_pos hlow).trans (dif_pos hm))
      exact hunpack ▸ .zero s hlow hm
    · have hpos : 0 < (fields b).2.toNat := Nat.pos_of_ne_zero fun h0 ↦ hm (BitVec.eq_of_toNat_eq h0)
      have hunpack : unpack Format.binary64 b =
          .finite s (fields b).2.toNat (((fields b).1.toNat : Int) - 1075 + 1) hpos :=
        (if_neg hhigh).trans ((if_pos hlow).trans (dif_neg hm))
      exact hunpack ▸ .lowest s hlow hm hpos
  · have hpos : 0 < (1#1 ++ (fields b).2).toNat := by
      rw [toNat_one_append]
      omega
    have hunpack : unpack Format.binary64 b =
        .finite s (1#1 ++ (fields b).2).toNat (((fields b).1.toNat : Int) - 1075) hpos :=
      (if_neg hhigh).trans (if_neg hlow)
    exact hunpack ▸ .leading s hlow hhigh hpos

theorem isInf_unpack (b : BitVec 64) :
    (unpack Format.binary64 b).isInf = true ↔ fields b = (-1#11, 0#52) := by
  have hunpacks := unpacks_fields b
  generalize unpack Format.binary64 b = x at *
  cases hunpacks with
  | infinity s he hm => exact iff_of_true rfl (Prod.ext he hm)
  | notANumber he hm => exact iff_of_false Bool.false_ne_true fun h ↦ hm (congrArg Prod.snd h)
  | zero s he hm | lowest s he hm hpos =>
    refine iff_of_false Bool.false_ne_true fun h ↦ ?_
    exact absurd (he.symm.trans (congrArg Prod.fst h)) (by decide)
  | leading s hlow hhigh hpos =>
    exact iff_of_false Bool.false_ne_true fun h ↦ hhigh (congrArg Prod.fst h)

theorem beq_zero_unpack (b : BitVec 64) (t : Sign) :
    (unpack Format.binary64 b).beq (.zero t) = true ↔ fields b = (0#11, 0#52) := by
  have hunpacks := unpacks_fields b
  generalize unpack Format.binary64 b = x at *
  cases hunpacks with
  | infinity s he hm =>
    refine iff_of_false ?_ fun h ↦ absurd (he.symm.trans (congrArg Prod.fst h)) (by decide)
    cases s <;> exact Bool.false_ne_true
  | notANumber he hm => exact iff_of_false Bool.false_ne_true fun h ↦ hm (congrArg Prod.snd h)
  | zero s he hm => exact iff_of_true rfl (Prod.ext he hm)
  | lowest s he hm hpos =>
    refine iff_of_false ?_ fun h ↦ hm (congrArg Prod.snd h)
    cases s <;> exact Bool.false_ne_true
  | leading s hlow hhigh hpos =>
    refine iff_of_false ?_ fun h ↦ hlow (congrArg Prod.fst h)
    cases s <;> exact Bool.false_ne_true

/-- The exponent of a finite number tells its place, if the mantissa has its leading bit. Beyond the
last place it is infinite. -/
theorem fields_pack_finite (s : Sign) {m : Nat} (hpos : 0 < m) (place : Int) :
    fields (pack Format.binary64 (.finite s m place hpos)) =
      if 2047 ≤ (place + 1075).toNat then (-1#11, 0#52)
      else (if m.log2 = 52 then BitVec.ofNat 11 (place + 1075).toNat else 0#11, BitVec.ofNat 52 m) := by
  have hbiased : (place + (1023 : Nat) + (52 : Nat)).toNat = (place + 1075).toNat := by omega
  change fields (if 2048 ≤ (place + (1023 : Nat) + (52 : Nat)).toNat + 1 then
      packComponents Format.binary64 s (-1#11) (0#52)
    else if m.log2 + 1 = 53 then packComponents Format.binary64 s
      (BitVec.ofNat 11 (place + (1023 : Nat) + (52 : Nat)).toNat) (BitVec.ofNat 52 m)
    else packComponents Format.binary64 s (0#11) (BitVec.ofNat 52 m)) = _
  rw [hbiased]
  by_cases hlarge : 2047 ≤ (place + 1075).toNat
  · rw [if_pos hlarge, if_pos (by omega), fields_packComponents]
  rw [if_neg hlarge, if_neg (by omega)]
  by_cases hlog : m.log2 = 52
  · rw [if_pos hlog, if_pos (by omega), fields_packComponents]
  · rw [if_neg hlog, if_neg (by omega), fields_packComponents]

theorem fields_pack_neg (x : UnpackedFloat) :
    fields (pack Format.binary64 x.neg) = fields (pack Format.binary64 x) := by
  cases x with
  | notANumber => rfl
  | infinity s | zero s =>
    exact (fields_packComponents ..).trans (fields_packComponents ..).symm
  | finite s m place hpos =>
    exact (fields_pack_finite ..).trans (fields_pack_finite ..).symm

/-- Packing what was unpacked keeps the fields of the bits of a number. -/
theorem fields_pack_unpack {b : BitVec 64} (h : Format.binary64.Valid b) :
    fields (pack Format.binary64 (unpack Format.binary64 b)) = fields b := by
  have hunpacks := unpacks_fields b
  generalize unpack Format.binary64 b = x at *
  cases hunpacks with
  | infinity s he hm | zero s he hm =>
    exact (fields_packComponents ..).trans (Prod.ext he.symm hm.symm)
  | notANumber he hm => exact congrArg fields (h.eq_packedNaN he hm).symm
  | lowest s he hm hpos =>
    have hlog : (fields b).2.toNat.log2 ≠ 52 := ((Nat.log2_lt hpos.ne').mpr (BitVec.isLt _)).ne
    rw [fields_pack_finite, he, if_neg (by decide), if_neg hlog, BitVec.ofNat_toNat,
      BitVec.setWidth_eq]
    exact Prod.ext he.symm rfl
  | leading s hlow hhigh hpos =>
    have hlog : (1#1 ++ (fields b).2).toNat.log2 = 52 := by
      have hlt := (fields b).2.isLt
      have heq := toNat_one_append (fields b).2
      exact (Nat.log2_eq_iff (by omega)).mpr (by omega)
    have hfinite : (fields b).1.toNat < 2047 := by
      have hlt : (fields b).1.toNat < 2048 := BitVec.isLt _
      have hne : (fields b).1.toNat ≠ 2047 := fun h0 ↦ hhigh (BitVec.eq_of_toNat_eq h0)
      omega
    have hplace : (((fields b).1.toNat : Int) - 1075 + 1075).toNat = (fields b).1.toNat := by omega
    rw [fields_pack_finite, hplace, if_neg (by omega), if_pos hlog]
    refine Prod.ext (BitVec.ofNat_toNat ..) (BitVec.eq_of_toNat_eq ?_)
    rw [BitVec.toNat_ofNat, toNat_one_append, Nat.add_mod_left, Nat.mod_eq_of_lt (BitVec.isLt _)]

theorem beq_zero_fields (x : Float) :
    (x == 0.0) = true ↔ fields x.toModel.toBits.toBitVec = (0#11, 0#52) :=
  beq_zero_unpack _ .positive

/-- The sign makes no difference to the test for zero. -/
theorem beq_zero_neg (x : Float) : (-x == 0.0) = (x == 0.0) := by
  rw [Bool.eq_iff_iff, beq_zero_fields, beq_zero_fields]
  change fields (pack Format.binary64 (unpack Format.binary64 x.toModel.toBits.toBitVec).neg) = _ ↔ _
  rw [fields_pack_neg, fields_pack_unpack x.toModel.valid]

/-! Bits that are assembled -/

theorem fields_ofNat_eq_iff {n : Nat} (h : n < 2 ^ 63) (e : BitVec 11) (m : BitVec 52) :
    fields (BitVec.ofNat 64 n) = (e, m) ↔ n = e.toNat * 2 ^ 52 + m.toNat := by
  have he := e.isLt
  have hm := m.isLt
  have hn : (BitVec.ofNat 64 n).toNat = n := Nat.mod_eq_of_lt (by omega)
  have hexp : (@unpackExponent Format.binary64 (BitVec.ofNat 64 n)).toNat = n / 2 ^ 52 % 2 ^ 11 := by
    change (BitVec.extractLsb' 52 11 (BitVec.ofNat 64 n)).toNat = _
    rw [BitVec.extractLsb'_toNat, hn, Nat.shiftRight_eq_div_pow]
  have hman : (@unpackMantissa Format.binary64 (BitVec.ofNat 64 n)).toNat = n % 2 ^ 52 := by
    change (BitVec.extractLsb' 0 52 (BitVec.ofNat 64 n)).toNat = _
    rw [BitVec.extractLsb'_toNat, hn, Nat.shiftRight_zero]
  rw [fields, Prod.mk.injEq, ← BitVec.toNat_inj, ← BitVec.toNat_inj, hexp, hman]
  omega

section

variable {n : Nat} (h : n ≤ infinityBits)
include h

theorem valid_ofNat : Format.binary64.Valid (BitVec.ofNat 64 n) where
  eq_packedNaN hexp hman := by
    have hlt : n < 2 ^ 63 := h.trans_lt (by decide)
    have hbits : n = 2047 * 2 ^ 52 + (fields (BitVec.ofNat 64 n)).2.toNat :=
      (fields_ofNat_eq_iff hlt (-1#11) _).mp (Prod.ext hexp rfl)
    have hne : (fields (BitVec.ofNat 64 n)).2.toNat ≠ 0 := fun h0 ↦
      hman (BitVec.eq_of_toNat_eq h0)
    rw [infinityBits] at h
    omega

theorem fields_ofBits_eq_iff (e : BitVec 11) (m : BitVec 52) :
    fields (Float.ofBits (UInt64.ofNat n)).toModel.toBits.toBitVec = (e, m) ↔
      n = e.toNat * 2 ^ 52 + m.toNat := by
  change fields (pack Format.binary64 (unpack Format.binary64 (BitVec.ofNat 64 n))) = _ ↔ _
  rw [fields_pack_unpack (valid_ofNat h), fields_ofNat_eq_iff (h.trans_lt (by decide))]

end

theorem isInf_assemble (mantissa : Nat) (place : Int) :
    (assemble mantissa place).isInf = true ↔
      infinityBits ≤ (place + 1074).toNat * Nat.pow 2 52 + mantissa :=
  (isInf_unpack _).trans
    ((fields_ofBits_eq_iff (Nat.min_le_right ..) _ _).trans min_eq_right_iff)

theorem beq_zero_assemble (mantissa : Nat) (place : Int) :
    (assemble mantissa place == 0.0) = true ↔ place ≤ -1074 ∧ mantissa = 0 := by
  rw [beq_zero_fields, assemble, fields_ofBits_eq_iff (Nat.min_le_right ..), BitVec.toNat_zero,
    BitVec.toNat_zero, infinityBits, Nat.pow_eq]
  omega

/-! Rounding to infinity -/

theorem halfEven_le {n : Nat} {x : ℚ} (hx : 0 ≤ x) (h : x ≤ n) : halfEven x ≤ n := by
  have hlow := Nat.floor_le hx
  rw [halfEven]
  split_ifs with hup
  · have hlt : (⌊x⌋₊ : ℚ) < x := by
      rcases hup with hup | ⟨hup, -⟩ <;> linarith
    exact_mod_cast hlt.trans_le h
  · exact_mod_cast hlow.trans h

/-- A tie goes to the even neighbour. -/
theorem le_halfEven_iff {n : Nat} (hn : n % 2 = 0) {x : ℚ} (hx : 0 ≤ x) :
    n ≤ halfEven x ↔ (n : ℚ) - 1 / 2 ≤ x := by
  have hlow := Nat.floor_le hx
  have hhigh := Nat.lt_floor_add_one x
  rw [halfEven]
  generalize ⌊x⌋₊ = k at *
  rcases Nat.lt_trichotomy n (k + 1) with hlt | rfl | hgt
  · have hle : (n : ℚ) ≤ k := by exact_mod_cast Nat.le_of_lt_succ hlt
    refine iff_of_true ?_ (by linarith)
    split_ifs <;> omega
  · have hodd : k % 2 = 1 := by omega
    have hhalf : ((k + 1 : Nat) : ℚ) - 1 / 2 ≤ x ↔ 1 / 2 ≤ x - k := by
      push_cast
      constructor <;> intro h <;> linarith
    rw [hhalf]
    split_ifs with hup
    · exact iff_of_true le_rfl (hup.elim le_of_lt fun htie ↦ htie.1.ge)
    · exact iff_of_false (by omega) fun hge ↦
        hup (hge.lt_or_eq.imp_right fun heq ↦ ⟨heq.symm, hodd⟩)
  · have hge : (k : ℚ) + 2 ≤ n := by exact_mod_cast hgt
    refine iff_of_false ?_ (by linarith)
    split_ifs <;> omega

theorem pow_mul_zpow (k : Nat) (place : Int) : (2 : ℚ) ^ k * 2 ^ place = 2 ^ (k + place) := by
  rw [zpow_add₀ two_ne_zero, zpow_natCast]

/-- The mantissa has fifty-three bits, or fewer in the lowest place; rounding may carry over. -/
theorem mantissa_bounds {x : ℚ} (hx : 0 < x) :
    halfEven (x / 2 ^ lastPlace x) ≤ 2 ^ 53 ∧
      (-1074 < lastPlace x → 2 ^ 52 ≤ halfEven (x / 2 ^ lastPlace x)) := by
  have hlow : (2 : ℚ) ^ Int.log 2 x ≤ x := Int.zpow_log_le_self one_lt_two hx
  have hhigh : x < (2 : ℚ) ^ (Int.log 2 x + 1) := Int.lt_zpow_succ_log_self one_lt_two x
  constructor
  · have hle : Int.log 2 x + 1 ≤ (53 : Nat) + lastPlace x := by
      rw [lastPlace]
      omega
    refine halfEven_le (by positivity) ?_
    rw [div_le_iff₀ (by positivity), Nat.cast_pow, Nat.cast_ofNat, pow_mul_zpow]
    exact hhigh.le.trans (zpow_le_zpow_right₀ one_le_two hle)
  · intro hplace
    have hle : (52 : Nat) + lastPlace x ≤ Int.log 2 x := by
      rw [lastPlace] at *
      omega
    have hcount : (2 : ℚ) ^ 52 ≤ x / 2 ^ lastPlace x := by
      rw [le_div_iff₀ (by positivity), pow_mul_zpow]
      exact (zpow_le_zpow_right₀ one_le_two hle).trans hlow
    rw [le_halfEven_iff (by decide) (by positivity), Nat.cast_pow, Nat.cast_ofNat]
    linarith

/-- The least magnitude that is rounded to infinity: half a unit beyond the largest finite number. -/
def rangeEnd : Nat :=
  (Nat.pow 2 54 - 1) * Nat.pow 2 970

theorem cast_rangeEnd : (rangeEnd : ℚ) = ((2 ^ 53 : Nat) - 1 / 2) * 2 ^ (971 : Int) := by
  have hplace : (971 : Int) = (970 : Nat) + 1 := rfl
  rw [rangeEnd, hplace]
  generalize 970 = k
  rw [zpow_add₀ two_ne_zero, zpow_natCast, zpow_one, Nat.cast_mul, Nat.pow_eq, Nat.pow_eq,
    Nat.cast_pow 2 k, Nat.cast_ofNat]
  norm_num
  ring

theorem rangeEnd_bounds : (2 : ℚ) ^ (1023 : Int) ≤ rangeEnd ∧ (rangeEnd : ℚ) ≤ 2 ^ (1024 : Int) := by
  have hlow : (2 : ℚ) ^ (1023 : Int) = 2 ^ 52 * 2 ^ (971 : Int) := (pow_mul_zpow 52 971).symm
  have hhigh : (2 : ℚ) ^ (1024 : Int) = 2 ^ 53 * 2 ^ (971 : Int) := (pow_mul_zpow 53 971).symm
  rw [cast_rangeEnd, hlow, hhigh]
  constructor <;> gcongr <;> norm_num

theorem isInf_rounded {x : ℚ} (hx : 0 < x) :
    (rounded x).isInf = true ↔ (rangeEnd : ℚ) ≤ x := by
  obtain ⟨hupper, hlower⟩ := mantissa_bounds hx
  rw [rounded, isInf_assemble, infinityBits, Nat.pow_eq]
  rcases Int.lt_trichotomy (Int.log 2 x) 1023 with hlog | hlog | hlog
  · have hplace : lastPlace x ≤ 970 := by
      rw [lastPlace]
      omega
    have hlt : x < ((2 : Nat) : ℚ) ^ (1023 : Int) := (Int.lt_zpow_iff_log_lt one_lt_two hx).mpr hlog
    exact iff_of_false (by omega) (not_le.mpr (hlt.trans_le rangeEnd_bounds.1))
  · have hplace : lastPlace x = 971 := by
      rw [lastPlace, hlog]
      rfl
    rw [cast_rangeEnd, hplace, ← le_div_iff₀ (by positivity),
      ← le_halfEven_iff (by decide) (by positivity)]
    omega
  · have hplace : 972 ≤ lastPlace x := by
      rw [lastPlace]
      omega
    have hcount := hlower (by omega)
    have hle : ((2 : Nat) : ℚ) ^ (1024 : Int) ≤ x := (Int.zpow_le_iff_le_log one_lt_two hx).mpr hlog
    exact iff_of_true (by omega) (rangeEnd_bounds.2.trans hle)

theorem rangeEnd_pos : 0 < rangeEnd := by
  rw [rangeEnd]
  generalize 970 = k
  exact Nat.mul_pos (by decide) (Nat.pow_pos two_pos)

theorem isInf_nearest (num : Nat) {den : Nat} (hden : 0 < den) :
    (nearest num den).isInf = true ↔ rangeEnd * den ≤ num := by
  rcases Nat.eq_zero_or_pos num with rfl | hnum
  · have hzero : nearest 0 den = 0.0 := rfl
    rw [hzero]
    exact iff_of_false (by decide) (Nat.mul_pos rangeEnd_pos hden).not_ge
  · have hpos : (0 : ℚ) < den := by exact_mod_cast hden
    rw [nearest_eq hnum hden, isInf_rounded (by positivity), le_div_iff₀ hpos]
    exact_mod_cast Iff.rfl

/-! Whole numbers -/

theorem signedNearest?_eq_none_iff (negative : Bool) (num : Nat) {den : Nat} (hden : 0 < den) :
    signedNearest? negative num den = none ↔ rangeEnd * den ≤ num := by
  rw [← isInf_nearest num hden, signedNearest?]
  by_cases hinf : (nearest num den).isInf = true
  · exact iff_of_true (if_pos hinf) hinf
  · rw [if_neg hinf]
    exact iff_of_false (Option.some_ne_none _) hinf

theorem ofInt?_eq_none_iff (n : Int) : ofInt? n = none ↔ rangeEnd ≤ n.natAbs := by
  rw [ofInt?, signedNearest?_eq_none_iff _ _ Nat.one_pos, Nat.mul_one]

theorem quotient?_eq_none_iff (a : Int) {b : Int} (hb : b ≠ 0) :
    quotient? a b = none ↔ rangeEnd * b.natAbs ≤ a.natAbs :=
  signedNearest?_eq_none_iff _ _ (Int.natAbs_pos.mpr hb)

theorem beq_zero_nearest_one (num : Nat) : (nearest num 1 == 0.0) = true ↔ num = 0 := by
  rcases Nat.eq_zero_or_pos num with rfl | hnum
  · exact iff_of_true rfl rfl
  · have hone : (1 : ℚ) ≤ (num : ℚ) / (1 : Nat) := by
      rw [Nat.cast_one, div_one]
      exact_mod_cast hnum
    have hplace : -1074 < lastPlace ((num : ℚ) / (1 : Nat)) := by
      rw [lastPlace, Int.log_of_one_le_right 2 hone]
      omega
    rw [nearest_eq hnum Nat.one_pos, rounded, beq_zero_assemble]
    exact iff_of_false (fun h ↦ absurd h.1 (not_le.mpr hplace)) hnum.ne'

/-- Only zero becomes a zero. -/
theorem beq_zero_of_ofInt? {n : Int} {x : Float} (h : ofInt? n = some x) :
    (x == 0.0) = true ↔ n = 0 := by
  rw [ofInt?, signedNearest?] at h
  split_ifs at h
  · cases h
    rw [beq_zero_neg, beq_zero_nearest_one, Int.natAbs_eq_zero]
  · cases h
    rw [beq_zero_nearest_one, Int.natAbs_eq_zero]

end VbaTrace.Number
