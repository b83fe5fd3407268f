import Mathlib.Data.List.Infix
import VbaTrace.Text.Search

/-!
Laws of searching and cutting texts. A pattern occurs in a text exactly when it is an infix of it,
and the lines of a text, each with a line end behind it, make up the text with a last line end.
-/

set_option autoImplicit false

namespace VbaTrace.Text

theorem occursIn_iff_infix (pattern cs : List Char) :
    occursIn pattern cs = true ↔ pattern <:+: cs := by
  unfold occursIn
  induction cs with
  | nil =>
    rw [find?, List.infix_nil]
    cases pattern <;> simp
  | cons c cs ih =>
    rw [find?, List.infix_cons_iff, ← ih, ← List.isPrefixOf_iff_prefix]
    by_cases hfront : pattern.isPrefixOf (c :: cs) = true <;> simp [hfront]

theorem flatMap_splitFrom (part cs : List Char) :
    (splitFrom ['\n'] 0 part cs).flatMap (· ++ ['\n']) = part.reverse ++ cs ++ ['\n'] := by
  induction cs generalizing part with
  | nil => simp [splitFrom]
  | cons c cs ih =>
    rw [splitFrom]
    split_ifs with hline
    · have hc : '\n' = c := by simpa using hline
      rw [List.flatMap_cons, List.length_singleton, ih, ← hc]
      simp
    · rw [ih, List.reverse_cons]
      simp

/-- The lines of a text, each with its end, are the text with an end. -/
theorem flatMap_splitOn_lineEnd (cs : List Char) :
    (splitOn ['\n'] cs).flatMap (· ++ ['\n']) = cs ++ ['\n'] :=
  flatMap_splitFrom [] cs

theorem not_mem_of_mem_splitFrom {part cs line : List Char} (hpart : '\n' ∉ part)
    (h : line ∈ splitFrom ['\n'] 0 part cs) : '\n' ∉ line := by
  induction cs generalizing part with
  | nil =>
    rw [splitFrom, List.mem_singleton] at h
    rw [h, List.mem_reverse]
    exact hpart
  | cons c cs ih =>
    rw [splitFrom] at h
    split_ifs at h with hline
    · rcases List.mem_cons.mp h with rfl | h
      · rwa [List.mem_reverse]
      · exact ih List.not_mem_nil h
    · have hc : '\n' ≠ c := by simpa using hline
      exact ih (List.not_mem_cons_of_ne_of_not_mem hc hpart) h

/-- No line of a text has a line end in it. -/
theorem not_mem_of_mem_splitOn_lineEnd {cs line : List Char} (h : line ∈ splitOn ['\n'] cs) :
    '\n' ∉ line :=
  not_mem_of_mem_splitFrom List.not_mem_nil h

theorem splitFrom_line {line : List Char} (hline : '\n' ∉ line) (part cs : List Char) :
    splitFrom ['\n'] 0 part (line ++ '\n' :: cs) =
      (part.reverse ++ line) :: splitFrom ['\n'] 0 [] cs := by
  induction line generalizing part with
  | nil => simp [splitFrom]
  | cons c line ih =>
    obtain ⟨hc, hline⟩ := List.ne_and_not_mem_of_not_mem_cons hline
    rw [List.cons_append, splitFrom, if_neg (by simpa using hc), ih hline]
    simp

/-- A text of lines with their ends has these lines, and an empty one behind the last end. -/
theorem splitOn_flatMap_lineEnd {lines : List (List Char)} (h : ∀ line ∈ lines, '\n' ∉ line) :
    splitOn ['\n'] (lines.flatMap (· ++ ['\n'])) = lines ++ [[]] := by
  unfold splitOn
  induction lines with
  | nil => rfl
  | cons line lines ih =>
    obtain ⟨hline, hlines⟩ := List.forall_mem_cons.mp h
    rw [List.flatMap_cons, List.append_assoc, List.singleton_append, splitFrom_line hline,
      ih hlines]
    rfl

end VbaTrace.Text
