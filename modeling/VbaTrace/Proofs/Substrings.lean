import VbaTrace.Proofs.Conversions

/-!
Parts of a text. The routines that cut one out compare places and lengths with the ends of the text,
each in an order of its own. Whatever numbers they are given, they give a front of the text, a back of
it, or a front of a back (`middle_from`, `middle_cut`, `leftmost_eq`, `rightmost_eq`). So a text falls
into two parts without loss, at a place that is counted from its beginning (`leftmost_append_middle`)
or from its end (`leftmost_append_rightmost`).
-/

set_option autoImplicit false

namespace VbaTrace

namespace Library

section

variable (cs : List Char)

theorem middle_from (start : Int) : middle cs start none = cs.drop (max start 1 - 1).toNat := by
  unfold middle
  split_ifs with hbehind hbefore
  · rw [List.drop_eq_nil_of_le (by omega)]
  · rw [Int.max_eq_right (by omega)]
  · rw [Int.max_eq_left (by omega)]

/-- A length cuts what is given without one; beyond the end it cuts nothing off, and if it is not
positive, nothing is left. -/
theorem middle_cut (start n : Int) :
    middle cs start (some n) = (middle cs start none).take (max n 0).toNat := by
  unfold middle
  by_cases hbehind : start > cs.length
  · rw [if_pos hbehind, if_pos hbehind, List.take_nil]
  · rw [if_neg hbehind, if_neg hbehind]
    dsimp only
    have hfirst : 1 ≤ if start ≤ 0 then 1 else start := by
      split_ifs <;> omega
    generalize (if start ≤ 0 then 1 else start) = place at hfirst
    split_ifs with hlong hnone
    · rw [List.take_of_length_le]
      rw [List.length_drop]
      omega
    · rw [Int.max_eq_right hnone, Int.toNat_zero, List.take_zero]
    · rw [Int.max_eq_left (by omega)]

theorem leftmost_eq (n : Int) : leftmost cs n = cs.take n.toNat := by
  unfold leftmost
  split_ifs with hlong hnone
  · rw [List.take_of_length_le (by omega)]
  · rw [Int.toNat_of_nonpos hnone, List.take_zero]
  · rfl

theorem rightmost_eq (n : Int) : rightmost cs n = cs.drop (cs.length - n.toNat) := by
  unfold rightmost
  split_ifs with hlong hnone
  · rw [Nat.sub_eq_zero_of_le (by omega), List.drop_zero]
  · rw [Int.toNat_of_nonpos hnone, Nat.sub_zero, List.drop_length]
  · rfl

theorem leftmost_append_middle (n : Int) : leftmost cs n ++ middle cs (n + 1) none = cs := by
  have hplace : (max (n + 1) 1 - 1).toNat = n.toNat := by omega
  rw [leftmost_eq, middle_from, hplace, List.take_append_drop]

theorem leftmost_append_rightmost (n : Int) :
    leftmost cs (cs.length - n) ++ rightmost cs n = cs := by
  rw [leftmost_eq, rightmost_eq]
  by_cases hn : n ≤ 0
  · rw [List.take_of_length_le (by omega), List.drop_eq_nil_of_le (by omega), List.append_nil]
  · have hplace : ((cs.length : Int) - n).toNat = cs.length - n.toNat := by omega
    rw [hplace, List.take_append_drop]

end

/-! Calls -/

theorem mid_of_text (h : Heap) {s : String} (hs : s ≠ "ActiveDocument") (start length : Int) :
    mid h [.text s, .int start, .int length] =
      .ok (.ofChars (middle s.toList start (some length))) := by
  have hname : [Value.text s, .int start, .int length].head?.any isDocumentName = false := by
    simp [isDocumentName, hs]
  unfold mid
  rw [hname]
  rfl

theorem mid_from_of_text (h : Heap) {s : String} (hs : s ≠ "ActiveDocument") (start : Int) :
    mid h [.text s, .int start] = .ok (.ofChars (middle s.toList start none)) := by
  have hname : [Value.text s, .int start].head?.any isDocumentName = false := by
    simp [isDocumentName, hs]
  unfold mid
  rw [hname]
  rfl

theorem sidePart_of_text (part : List Char → Int → List Char) (h : Heap) (s : String) (n : Int) :
    sidePart part h [.text s, .int n] = .ok (.ofChars (part s.toList n)) :=
  rfl

end Library

namespace Routine

variable (evaluate : Evaluator) (m : Machine)

theorem call_mid {s : String} (hs : s ≠ "ActiveDocument") (start n : Int) :
    Routine.call evaluate .mid (some [.text s, .int start, .int n]) m =
      .ok (.ofChars (Library.middle s.toList start (some n))) m := by
  rw [call_of_answer evaluate m (r := .mid) rfl, Library.mid_of_text m.heap hs]
  rfl

theorem call_mid_from {s : String} (hs : s ≠ "ActiveDocument") (start : Int) :
    Routine.call evaluate .mid (some [.text s, .int start]) m =
      .ok (.ofChars (Library.middle s.toList start none)) m := by
  rw [call_of_answer evaluate m (r := .mid) rfl, Library.mid_from_of_text m.heap hs]
  rfl

theorem call_left (s : String) (n : Int) :
    Routine.call evaluate .left (some [.text s, .int n]) m =
      .ok (.ofChars (Library.leftmost s.toList n)) m := by
  rw [call_of_answer evaluate m (r := .left) rfl, Library.sidePart_of_text]
  rfl

theorem call_right (s : String) (n : Int) :
    Routine.call evaluate .right (some [.text s, .int n]) m =
      .ok (.ofChars (Library.rightmost s.toList n)) m := by
  rw [call_of_answer evaluate m (r := .right) rfl, Library.sidePart_of_text]
  rfl

/-- The middle of a text is what stands from the start on, cut to the length if one is given. A front
and the middle behind it make up the text, and so do a front and a back whose lengths add up to that
of the text. This holds for all numbers, also for negative ones and for those beyond the end. Only the
name of the document is not taken for a text to be cut. -/
theorem parts_make_up_text {s : String} (hs : s ≠ "ActiveDocument") (a k : Int) :
    Routine.call evaluate .mid (some [.text s, .int a, .int k]) m =
        .ok (.ofChars ((s.toList.drop (max a 1 - 1).toNat).take (max k 0).toNat)) m ∧
      Routine.call evaluate .mid (some [.text s, .int a]) m =
        .ok (.ofChars (s.toList.drop (max a 1 - 1).toNat)) m ∧
      (∃ front back : String,
        Routine.call evaluate .left (some [.text s, .int k]) m = .ok (.text front) m ∧
          Routine.call evaluate .mid (some [.text s, .int (k + 1)]) m = .ok (.text back) m ∧
          front ++ back = s) ∧
      ∃ front back : String,
        Routine.call evaluate .left (some [.text s, .int (s.length - k)]) m = .ok (.text front) m ∧
          Routine.call evaluate .right (some [.text s, .int k]) m = .ok (.text back) m ∧
          front ++ back = s := by
  refine ⟨?_, ?_, ⟨_, _, call_left evaluate m s k, call_mid_from evaluate m hs (k + 1), ?_⟩,
    ⟨_, _, call_left evaluate m s (s.length - k), call_right evaluate m s k, ?_⟩⟩
  · rw [call_mid evaluate m hs, Library.middle_cut, Library.middle_from]
  · rw [call_mid_from evaluate m hs, Library.middle_from]
  · rw [← String.ofList_append, Library.leftmost_append_middle, String.ofList_toList]
  · rw [← String.ofList_append, ← String.length_toList, Library.leftmost_append_rightmost,
      String.ofList_toList]

theorem parts_make_up_text_street :
    "Straße 9" ≠ "ActiveDocument" ∧
      Routine.call Semantics.run .mid (some [.text "Straße 9", .int (-2), .int 5]) {} =
        .ok (.text "Straß") {} ∧
      Routine.call Semantics.run .mid (some [.text "Straße 9", .int 5]) {} =
        .ok (.text "ße 9") {} := by
  have hs : "Straße 9" ≠ "ActiveDocument" := by decide
  exact ⟨hs, (parts_make_up_text Semantics.run {} hs (-2) 5).1,
    (parts_make_up_text Semantics.run {} hs 5 0).2.1⟩

end Routine

end VbaTrace
