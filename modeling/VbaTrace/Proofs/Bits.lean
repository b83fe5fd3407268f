import Mathlib.Data.Int.Bitwise
import VbaTrace.Number.Bits

/-!
Bits of whole numbers. The bitwise operations are those on endless rows of bits, in which a negative
number has ones from some place on (`bitAnd_eq_land`, `bitOr_eq_lor`, `bitXor_eq_xor`). A number is
known by its bits (`eq_of_testBit_eq`), so that a law in which only bitwise operations occur holds
when it holds for one bit. Where a sum occurs too, the bits that both numbers have are counted twice,
once on either side (`land_add_lor`).
-/

set_option autoImplicit false

namespace VbaTrace.Number

/-! The operations -/

theorem without_eq_ldiff (m n : Nat) : without m n = Nat.ldiff m n := by
  refine Nat.eq_of_testBit_eq fun i ↦ ?_
  rw [without, Nat.testBit_xor, Nat.testBit_and, Nat.testBit_ldiff]
  cases m.testBit i <;> cases n.testBit i <;> rfl

theorem complement_eq_lnot (a : Int) : complement a = Int.lnot a := by
  cases a <;> rfl

theorem bitXor_eq_xor (a b : Int) : bitXor a b = Int.xor a b := by
  cases a <;> cases b <;> rfl

theorem bitAnd_eq_land (a b : Int) : bitAnd a b = Int.land a b := by
  cases a <;> cases b <;> simp [bitAnd, Int.land, without_eq_ldiff]

theorem bitOr_eq_lor (a b : Int) : bitOr a b = Int.lor a b := by
  cases a <;> cases b <;> simp [bitOr, Int.lor, without_eq_ldiff]

/-! Laws of single bits -/

theorem exists_testBit_eq_false (m n : Nat) :
    ∃ i, m.testBit i = false ∧ n.testBit i = false := by
  have hm : m < 2 ^ (m + n) := lt_of_le_of_lt (Nat.le_add_right m n) (m + n).lt_two_pow_self
  have hn : n < 2 ^ (m + n) := lt_of_le_of_lt (Nat.le_add_left n m) (m + n).lt_two_pow_self
  exact ⟨m + n, Nat.testBit_lt_two_pow hm, Nat.testBit_lt_two_pow hn⟩

/-- Numbers with the same bits are the same. -/
theorem eq_of_testBit_eq {a b : Int} (h : ∀ i, a.testBit i = b.testBit i) : a = b := by
  cases a with
  | ofNat m =>
    cases b with
    | ofNat n => exact congrArg Int.ofNat (Nat.eq_of_testBit_eq h)
    | negSucc n =>
      obtain ⟨i, hm, hn⟩ := exists_testBit_eq_false m n
      have hbit : m.testBit i = !n.testBit i := h i
      rw [hm, hn] at hbit
      exact Bool.noConfusion hbit
  | negSucc m =>
    cases b with
    | ofNat n =>
      obtain ⟨i, hm, hn⟩ := exists_testBit_eq_false m n
      have hbit : (!m.testBit i) = n.testBit i := h i
      rw [hm, hn] at hbit
      exact Bool.noConfusion hbit
    | negSucc n =>
      have hbits (i : Nat) : m.testBit i = n.testBit i := Bool.not_inj (h i)
      exact congrArg Int.negSucc (Nat.eq_of_testBit_eq hbits)

theorem xor_right_comm (a b c : Int) : Int.xor (Int.xor a b) c = Int.xor (Int.xor a c) b := by
  refine eq_of_testBit_eq fun i ↦ ?_
  simp only [Int.testBit_lxor]
  exact Bool.xor_right_comm _ _ _

/-- What was changed by a key is changed back by it. -/
theorem xor_xor_cancel (a k : Int) : Int.xor (Int.xor a k) k = a := by
  refine eq_of_testBit_eq fun i ↦ ?_
  simp only [Int.testBit_lxor]
  cases a.testBit i <;> cases k.testBit i <;> rfl

theorem zero_xor (a : Int) : Int.xor 0 a = a := by
  refine eq_of_testBit_eq fun i ↦ ?_
  rw [Int.testBit_lxor]
  change (Nat.testBit 0 i ^^ a.testBit i) = _
  rw [Nat.zero_testBit, Bool.false_xor]

/-- Two bits agree if both are set or neither is. -/
theorem lor_land_lnot_lor (a b : Int) :
    Int.lor (Int.land a b) (Int.lnot (Int.lor a b)) = Int.lnot (Int.xor a b) := by
  refine eq_of_testBit_eq fun i ↦ ?_
  simp only [Int.testBit_lor, Int.testBit_land, Int.testBit_lnot, Int.testBit_lxor]
  cases a.testBit i <;> cases b.testBit i <;> rfl

theorem lnot_eq_sub (a : Int) : Int.lnot a = -1 - a := by
  cases a with
  | ofNat n =>
    change Int.negSucc n = -1 - (n : Int)
    omega
  | negSucc n =>
    change (n : Int) = -1 - Int.negSucc n
    omega

theorem neg_one_xor (a : Int) : Int.xor (-1) a = -1 - a := by
  rw [← lnot_eq_sub]
  cases a with
  | ofNat n => exact congrArg Int.negSucc (Nat.zero_xor n)
  | negSucc n => exact congrArg Int.ofNat (Nat.zero_xor n)

/-- Two numbers agree in no bit if they are each other's complement. -/
theorem lnot_xor_eq_zero_iff {a b : Int} : Int.lnot (Int.xor a b) = 0 ↔ b = -1 - a := by
  rw [lnot_eq_sub]
  constructor
  · intro h
    have hones : Int.xor a b = -1 := by omega
    have hcancel := xor_xor_cancel a b
    rw [hones, neg_one_xor] at hcancel
    omega
  · intro h
    have hcancel := xor_xor_cancel (-1) b
    rw [neg_one_xor, (by omega : -1 - b = a)] at hcancel
    omega

/-- The order of the numbers does not matter, not even which of them comes first. -/
theorem foldl_xor_perm {a b : Int} {as bs : List Int} (h : (a :: as).Perm (b :: bs)) :
    as.foldl Int.xor a = bs.foldl Int.xor b := by
  have hperm := h.foldl_eq' (fun x _ y _ z ↦ xor_right_comm z x y) 0
  rwa [List.foldl_cons, List.foldl_cons, zero_xor, zero_xor] at hperm

/-! Bits and sums -/

theorem nat_land_add_lor (m n : Nat) : (m &&& n) + (m ||| n) = m + n := by
  induction m using Nat.binaryRec generalizing n with
  | zero => rw [Nat.zero_and, Nat.zero_or]
  | bit b m ih =>
    rw [← Nat.bit_bodd_div2 n, Nat.land_bit, Nat.lor_bit]
    have hrest := ih n.div2
    cases b <;> cases n.bodd <;> simp only [Nat.bit_val] <;> simp <;> omega

theorem ldiff_add_land (m n : Nat) : Nat.ldiff m n + (m &&& n) = m := by
  have hunion : Nat.ldiff m n ||| (m &&& n) = m := by
    refine Nat.eq_of_testBit_eq fun i ↦ ?_
    rw [Nat.testBit_or, Nat.testBit_and, Nat.testBit_ldiff]
    cases m.testBit i <;> cases n.testBit i <;> rfl
  have hdisjoint : Nat.ldiff m n &&& (m &&& n) = 0 := by
    refine Nat.eq_of_testBit_eq fun i ↦ ?_
    rw [Nat.testBit_and, Nat.testBit_and, Nat.testBit_ldiff, Nat.zero_testBit]
    cases m.testBit i <;> cases n.testBit i <;> rfl
  have hsum := nat_land_add_lor (Nat.ldiff m n) (m &&& n)
  rw [hunion, hdisjoint, Nat.zero_add] at hsum
  exact hsum.symm

/-- The bits that both numbers have and those that either has make up their sum. -/
theorem land_add_lor (a b : Int) : Int.land a b + Int.lor a b = a + b := by
  cases a with
  | ofNat m =>
    cases b with
    | ofNat n =>
      have hsum := nat_land_add_lor m n
      change ((m &&& n : Nat) : Int) + ((m ||| n : Nat) : Int) = (m : Int) + n
      omega
    | negSucc n =>
      have hm := ldiff_add_land m n
      have hn := ldiff_add_land n m
      rw [Nat.land_comm] at hn
      change ((Nat.ldiff m n : Nat) : Int) + Int.negSucc (Nat.ldiff n m) = (m : Int) + Int.negSucc n
      omega
  | negSucc m =>
    cases b with
    | ofNat n =>
      have hm := ldiff_add_land m n
      have hn := ldiff_add_land n m
      rw [Nat.land_comm] at hn
      change ((Nat.ldiff n m : Nat) : Int) + Int.negSucc (Nat.ldiff m n) = Int.negSucc m + (n : Int)
      omega
    | negSucc n =>
      have hsum := nat_land_add_lor m n
      change Int.negSucc (m ||| n) + Int.negSucc (m &&& n) = Int.negSucc m + Int.negSucc n
      omega

end VbaTrace.Number
