import Mathlib.Tactic.SplitIfs
import VbaTrace.Semantics.Assignments

/-!
Items at places. An assignment to an element first extends what is too short, which fails where more
than can be counted would be added (`extendTo_eq`), and then replaces the item at the place. Together
that is `putAt`: the item is at its place, what was there before stays at the other places, and
fillers are between the old end and the place (`getElem?_putAt`).
-/

set_option autoImplicit false

namespace VbaTrace.Semantics

variable {α : Type}

theorem repeated_singleton (x : α) {n : Int} (hn : 0 ≤ n) :
    Value.repeated n [x] =
      if n < Value.indexLimit then .ok (List.replicate n.toNat x) else .error .overflow := by
  have hindex : Value.indexLimit = 9223372036854775808 := rfl
  have hempty : [x].isEmpty = false := rfl
  unfold Value.repeated
  simp only [Bool.or_eq_true, decide_eq_true_eq, hempty, Bool.false_eq_true, if_false,
    List.flatten_replicate_singleton]
  split_ifs <;> first | rfl | omega

/-- Items are extended up to any place that adds fewer than can be counted. -/
theorem extendTo_eq (filler : α) (items : List α) (place : Int) :
    extendTo filler items place =
      if place < items.length + Value.indexLimit then
        .ok (items ++ List.replicate (place - items.length).toNat filler)
      else .error .overflow := by
  have hpositive : 0 < Value.indexLimit := by decide
  unfold extendTo
  by_cases hplace : place < items.length
  · have hfits : place < items.length + Value.indexLimit := by omega
    have hnone : (place - items.length).toNat = 0 := by omega
    rw [if_pos hplace, if_pos hfits, hnone, List.replicate_zero, List.append_nil]
  · have hfits : place - items.length < Value.indexLimit ↔
        place < items.length + Value.indexLimit := by omega
    rw [if_neg hplace, repeated_singleton filler (by omega)]
    simp only [hfits]
    split_ifs <;> rfl

theorem eq_of_extendTo {filler : α} {items longer : List α} {place : Int}
    (h : extendTo filler items place = .ok longer) :
    longer = items ++ List.replicate (place - items.length).toNat filler := by
  rw [extendTo_eq] at h
  split_ifs at h
  exact (Except.ok.inj h).symm

/-- The items with one of them put at a place, behind as many fillers as that takes. -/
def putAt (filler : α) (items : List α) (place : Nat) (v : α) : List α :=
  (items.rightpad (place + 1) filler).set place v

theorem length_putAt (filler : α) (items : List α) (place : Nat) (v : α) :
    (putAt filler items place v).length = max items.length (place + 1) := by
  simp [putAt, List.rightpad]
  omega

theorem getElem?_putAt (filler : α) (items : List α) (place : Nat) (v : α) (i : Nat) :
    (putAt filler items place v)[i]? =
      if i = place then some v
      else if i < items.length then items[i]?
      else if i < place then some filler
      else none := by
  unfold putAt List.rightpad
  grind

/-- To replace an item of the extended items is to put it at its place. -/
theorem splice_extended (filler : α) (items : List α) (place : Nat) (v : α) :
    splice (items ++ List.replicate (place - items.length) filler) place [v] =
      putAt filler items place v := by
  have hcut (length n : Nat) : cutPlace length n = n := if_pos (Int.natCast_nonneg n)
  have hnext (length n : Nat) : cutPlace length ((n : Int) + 1) = n + 1 := hcut length (n + 1)
  unfold splice putAt List.rightpad
  rw [hcut, hnext]
  by_cases hplace : place < items.length
  · have hnone : place - items.length = 0 := by omega
    have hpad : place + 1 - items.length = 0 := by omega
    rw [hnone, hpad, List.replicate_zero, List.append_nil, List.set_eq_take_append_cons_drop,
      if_pos hplace, List.append_assoc, List.singleton_append]
  · have hlength : (items ++ List.replicate (place - items.length) filler).length = place := by
      rw [List.length_append, List.length_replicate]
      omega
    have hpad : place + 1 - items.length = place - items.length + 1 := by omega
    rw [hpad, List.replicate_succ', ← List.append_assoc,
      List.set_append_right _ _ (Nat.le_of_eq hlength), hlength, Nat.sub_self,
      List.take_of_length_le (Nat.le_of_eq hlength),
      List.drop_of_length_le (Nat.le_succ_of_le (Nat.le_of_eq hlength)), List.append_nil]
    rfl

end VbaTrace.Semantics
