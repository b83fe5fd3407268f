import Mathlib.Data.List.TakeWhile
import VbaTrace.Proofs.Captures
import VbaTrace.Proofs.Stripping
import VbaTrace.Proofs.WholeNumbers

/-!
Which lines are removed as unused assignments. The names that a line assigns are what the expression
`\s*(\w+)\s*=\s*` captures in it: at any place there is at most one way to match a word and the
equals sign behind it (`head?_ways_assignment`), and the scan of a line finds the same words, because
what it keeps of the text behind it is all that a match could start with (`assignedFrom_eq`).

So the text that remains has exactly the lines that are no unreferenced assignments
(`withoutUnused_exact`).
-/

set_option autoImplicit false

namespace VbaTrace.Source

open Text (Regex isBlank isWordChar isWordChar_of_isBlank isBlank_of_isWordChar dropWhile_of_head)

/-! The names before equals signs -/

/-- An equals sign and the blanks behind it. -/
def equalsSign : Regex :=
  .seq (.one (· == '=')) (.many isBlank)

/-- The expression `\s*(\w+)\s*=\s*`. -/
def assignment : Regex :=
  .seq (.many isBlank) (.seq (.group (.seq (.one isWordChar) (.many isWordChar)))
    (.seq (.many isBlank) equalsSign))

theorem equalsSign_refuses {set : Char → Bool} (h : set '=' = false) :
    equalsSign.Refuses set := by
  intro c cs hc
  have hne : c ≠ '=' := by
    rintro rfl
    exact Bool.noConfusion (h.symm.trans hc)
  simp [equalsSign, Regex.ways, hne]

theorem blanks_equalsSign_refuses : (Regex.seq (.many isBlank) equalsSign).Refuses isWordChar := by
  intro c cs hc
  have hword : isWordChar '=' = false := by decide +kernel
  rw [Regex.ways_many_seq (equalsSign_refuses (by decide)), List.dropWhile_cons,
    isBlank_of_isWordChar hc]
  exact congrArg (List.map _) (equalsSign_refuses hword c cs hc)

theorem word_refuses (r : Regex) :
    (Regex.seq (.group (.seq (.one isWordChar) (.many isWordChar))) r).Refuses isBlank := by
  intro c cs hc
  simp [Regex.ways, isWordChar_of_isBlank hc]

/-- What stands behind an equals sign and the blanks that follow it. -/
def afterSign? : List Char → Option (List Char)
  | '=' :: rest => some (rest.dropWhile isBlank)
  | _ => none

theorem afterSign?_of_ne {cs : List Char} (h : cs.head? ≠ some '=') : afterSign? cs = none := by
  unfold afterSign?
  split
  · exact absurd rfl h
  · rfl

/-- The word that a text starts with, behind blanks, where an equals sign follows it, and what stands
behind this sign. -/
def leading? (cs : List Char) : Option (List Char × List Char) :=
  let behind := cs.dropWhile isBlank
  if (behind.takeWhile isWordChar).isEmpty then none
  else
    (afterSign? ((behind.dropWhile isWordChar).dropWhile isBlank)).map
      fun rest ↦ (behind.takeWhile isWordChar, rest)

theorem ways_equalsSign (cs : List Char) :
    (equalsSign.ways ('=' :: cs)).head? =
      some ⟨'=' :: cs.takeWhile isBlank, [], cs.dropWhile isBlank⟩ := by
  simp [equalsSign, Regex.ways, Regex.head?_greedy, Text.Way.andThen]

theorem head?_ways_assignment (cs : List Char) :
    ((assignment.ways cs).head?.map fun w ↦ (w.groups, w.rest)) =
      (leading? cs).map fun found ↦ ([found.1], found.2) := by
  unfold assignment leading?
  rw [Regex.ways_many_seq (word_refuses _), List.head?_map]
  cases cs.dropWhile isBlank with
  | nil => simp [Regex.ways]
  | cons c ds =>
    by_cases hc : isWordChar c = true
    · rw [Regex.ways_word_seq blanks_equalsSign_refuses hc,
        Regex.ways_many_seq (equalsSign_refuses (by decide))]
      simp only [List.dropWhile_cons, List.takeWhile_cons, hc, if_true]
      cases (ds.dropWhile isWordChar).dropWhile isBlank with
      | nil => simp [equalsSign, Regex.ways, afterSign?]
      | cons d es =>
        by_cases hd : d = '='
        · subst hd
          simp [ways_equalsSign, Text.Way.andThen, afterSign?]
        · have hnone : afterSign? (d :: es) = none := afterSign?_of_ne (by simpa using hd)
          simp [equalsSign, Regex.ways, hd, hnone]
    · simp [Regex.ways, hc]

/-- Where a text starts with an assigned name, this is captured, and the search goes on behind the
equals sign. -/
theorem captures_of_leading {cs name rest : List Char} (h : leading? cs = some (name, rest)) :
    assignment.captures cs = name :: assignment.captures rest := by
  have hways := head?_ways_assignment cs
  rw [h] at hways
  obtain ⟨w, hw, heq⟩ := Option.map_eq_some_iff.mp hways
  obtain ⟨hgroups, hrest⟩ := Prod.mk.inj heq
  rw [Regex.captures_of_some hw (Regex.taken_ne_nil rfl (List.mem_of_head? hw)), hgroups, hrest]
  rfl

theorem captures_of_not_leading {c : Char} {cs : List Char} (h : leading? (c :: cs) = none) :
    assignment.captures (c :: cs) = assignment.captures cs := by
  have hways := head?_ways_assignment (c :: cs)
  rw [h, Option.map_none, Option.map_eq_none_iff] at hways
  exact Regex.captures_of_none hways

theorem captures_blank {c : Char} (hc : isBlank c = true) (cs : List Char) :
    assignment.captures (c :: cs) = assignment.captures cs := by
  have hsame : leading? (c :: cs) = leading? cs := by
    unfold leading?
    rw [List.dropWhile_cons, if_pos hc]
  cases h : leading? cs with
  | none => exact captures_of_not_leading (hsame.trans h)
  | some found => rw [captures_of_leading (hsame.trans h), captures_of_leading h]

theorem captures_blanks {bs : List Char} (hbs : ∀ b ∈ bs, isBlank b = true) (cs : List Char) :
    assignment.captures (bs ++ cs) = assignment.captures cs := by
  induction bs with
  | nil => rfl
  | cons b bs ih =>
    obtain ⟨hb, hbs⟩ := List.forall_mem_cons.mp hbs
    rw [List.cons_append, captures_blank hb, ih hbs]

/-- A sign that is neither part of a word nor a blank is passed over. -/
theorem captures_sign {c : Char} (hword : isWordChar c = false) (hblank : isBlank c = false)
    (cs : List Char) : assignment.captures (c :: cs) = assignment.captures cs := by
  refine captures_of_not_leading ?_
  simp [leading?, hword, hblank]

theorem takeWhile_of_head {p : Char → Bool} {cs : List Char} (h : cs.head?.any p = false) :
    cs.takeWhile p = [] := by
  cases cs with
  | nil => rfl
  | cons c cs => exact List.takeWhile_cons_of_neg (by simpa using h)

/-- A word and blanks, before what continues neither. -/
structure WordEnds (word bs cs : List Char) : Prop where
  word : ∀ c ∈ word, isWordChar c = true
  blanks : ∀ b ∈ bs, isBlank b = true
  noBlank : cs.head?.any isBlank = false
  noWord : bs ≠ [] ∨ cs.head?.any isWordChar = false

theorem leading?_word {word bs cs : List Char} (h : WordEnds word bs cs) (hne : word ≠ []) :
    leading? (word ++ (bs ++ cs)) = (afterSign? cs).map fun rest ↦ (word, rest) := by
  have hbehind : (bs ++ cs).head?.any isWordChar = false := by
    cases bs with
    | nil => exact h.noWord.resolve_left fun hnil ↦ hnil rfl
    | cons b bs => simpa using isWordChar_of_isBlank (h.blanks b List.mem_cons_self)
  have hstart : (word ++ (bs ++ cs)).head?.any isBlank = false := by
    obtain ⟨c, front, rfl⟩ := List.exists_cons_of_ne_nil hne
    simpa using isBlank_of_isWordChar (h.word c List.mem_cons_self)
  unfold leading?
  dsimp only
  rw [dropWhile_of_head hstart, List.takeWhile_append_of_pos h.word,
    List.dropWhile_append_of_pos h.word, takeWhile_of_head hbehind, dropWhile_of_head hbehind,
    List.append_nil, List.dropWhile_append_of_pos h.blanks, dropWhile_of_head h.noBlank]
  simp [hne]

/-- A word that is not assigned is passed over, with the blanks behind it. -/
theorem captures_word {word bs cs : List Char} (h : WordEnds word bs cs)
    (hsign : cs.head? ≠ some '=') :
    assignment.captures (word ++ (bs ++ cs)) = assignment.captures cs := by
  obtain ⟨hword, hblanks, hnoBlank, hnoWord⟩ := h
  induction word with
  | nil => exact captures_blanks hblanks cs
  | cons c word ih =>
    have hnone : leading? (c :: word ++ (bs ++ cs)) = none := by
      rw [leading?_word ⟨hword, hblanks, hnoBlank, hnoWord⟩ (List.cons_ne_nil _ _),
        afterSign?_of_ne hsign, Option.map_none]
    rw [List.cons_append] at hnone ⊢
    rw [captures_of_not_leading hnone, ih (List.forall_mem_cons.mp hword).2]

theorem captures_assigned {word bs cs : List Char} (h : WordEnds word bs ('=' :: cs))
    (hne : word ≠ []) :
    assignment.captures (word ++ (bs ++ '=' :: cs)) = word :: assignment.captures cs := by
  rw [captures_of_leading (leading?_word h hne)]
  have hblanks : ∀ b ∈ cs.takeWhile isBlank, isBlank b = true := fun b hb ↦ List.mem_takeWhile_imp hb
  conv_rhs => rw [← List.takeWhile_append_dropWhile (p := isBlank) (l := cs), captures_blanks hblanks]

/-! The scan -/

/-- What the scan keeps of the text that it has passed: nothing, a word that goes on, or a word and
the blanks behind it. -/
inductive Keeps : List Char → Bool → List Char → Prop
  | nothing : Keeps [] false []
  | word {word : List Char} (hne : word ≠ []) (hword : ∀ c ∈ word, isWordChar c = true) :
    Keeps word true word.reverse
  | blanks {word bs : List Char} (hne : word ≠ []) (hword : ∀ c ∈ word, isWordChar c = true)
    (hbs : bs ≠ []) (hblanks : ∀ b ∈ bs, isBlank b = true) : Keeps word false (word.reverse ++ bs)

section

variable {word passed cs : List Char} {within : Bool} (h : Keeps word within passed)

include h

/-- What was kept is given up where it is not assigned. -/
theorem Keeps.captures_append (hnoBlank : cs.head?.any isBlank = false)
    (hnoWord : within = false ∨ cs.head?.any isWordChar = false) (hsign : cs.head? ≠ some '=') :
    assignment.captures (passed ++ cs) = assignment.captures cs := by
  cases h with
  | nothing => rfl
  | word hne hword =>
    have hreverse : ∀ c ∈ word.reverse, isWordChar c = true := by simpa using hword
    have hends : WordEnds word.reverse [] cs :=
      ⟨hreverse, by simp, hnoBlank, .inr (hnoWord.resolve_left Bool.noConfusion)⟩
    exact captures_word hends hsign
  | blanks hne hword hbs hblanks =>
    have hreverse : ∀ c ∈ word.reverse, isWordChar c = true := by simpa using hword
    rw [List.append_assoc]
    exact captures_word ⟨hreverse, hblanks, hnoBlank, .inl hbs⟩ hsign

/-- A word that was kept is captured at an equals sign. -/
theorem Keeps.captures_assigned (hne : word ≠ []) :
    assignment.captures (passed ++ '=' :: cs) = word.reverse :: assignment.captures cs := by
  have hsign : isWordChar '=' = false := by decide +kernel
  have hreversed : word.reverse ≠ [] := by simpa using hne
  cases h with
  | nothing => exact absurd rfl hne
  | word _ hword =>
    have hreverse : ∀ c ∈ word.reverse, isWordChar c = true := by simpa using hword
    have hends : WordEnds word.reverse [] ('=' :: cs) := ⟨hreverse, by simp, rfl, .inr hsign⟩
    exact Source.captures_assigned hends hreversed
  | blanks _ hword hbs hblanks =>
    have hreverse : ∀ c ∈ word.reverse, isWordChar c = true := by simpa using hword
    rw [List.append_assoc]
    exact Source.captures_assigned ⟨hreverse, hblanks, rfl, .inl hbs⟩ hreversed

theorem Keeps.of_wordChar {c : Char} (hc : isWordChar c = true) (hwithin : within = true) :
    Keeps (c :: word) true (passed ++ [c]) := by
  cases h with
  | nothing => exact Bool.noConfusion hwithin
  | word hne hword =>
    rw [← List.reverse_cons]
    exact .word (List.cons_ne_nil _ _) (List.forall_mem_cons.mpr ⟨hc, hword⟩)
  | blanks => exact Bool.noConfusion hwithin

theorem Keeps.of_blank {c : Char} (hc : isBlank c = true) (hne : word ≠ []) :
    Keeps word false (passed ++ [c]) := by
  have hsingle : ∀ b ∈ [c], isBlank b = true := by simpa using hc
  cases h with
  | nothing => exact absurd rfl hne
  | word _ hword => exact .blanks hne hword (List.cons_ne_nil _ _) hsingle
  | blanks _ hword hbs hblanks =>
    rw [List.append_assoc]
    exact .blanks hne hword (by simp) (List.forall_mem_append.mpr ⟨hblanks, hsingle⟩)

theorem Keeps.passed_eq_nil (hnil : word = []) : passed = [] := by
  cases h with
  | nothing => rfl
  | word hne => exact absurd hnil hne
  | blanks hne => exact absurd hnil hne

/-- The scan finds what the expression captures in the kept text and what follows it. -/
theorem assignedFrom_eq : assignedFrom word within cs = assignment.captures (passed ++ cs) := by
  induction cs generalizing word passed within with
  | nil =>
    rw [h.captures_append rfl (.inr rfl) (by simp)]
    rfl
  | cons c cs ih =>
    rw [assignedFrom]
    by_cases hword : isWordChar c = true
    · have hblank : isBlank c = false := isBlank_of_isWordChar hword
      have hsign : c ≠ '=' := by
        rintro rfl
        exact absurd hword (by decide +kernel)
      rw [if_pos hword]
      cases within with
      | true =>
        rw [if_pos rfl, ih (h.of_wordChar hword rfl), List.append_assoc]
        rfl
      | false =>
        have hstart : Keeps [c] true [c] :=
          .word (List.cons_ne_nil _ _) (by simpa using hword)
        rw [if_neg Bool.false_ne_true, ih hstart,
          h.captures_append (by simpa using hblank) (.inl rfl) (by simpa using hsign)]
        rfl
    · rw [if_neg hword]
      by_cases hblank : isBlank c = true
      · rw [if_pos hblank]
        by_cases hne : word = []
        · subst hne
          rw [h.passed_eq_nil rfl, ih .nothing]
          exact (captures_blank hblank cs).symm
        · rw [ih (h.of_blank hblank hne), List.append_assoc]
          rfl
      · rw [if_neg hblank]
        by_cases hassigned : c = '=' ∧ word ≠ []
        · obtain ⟨rfl, hne⟩ := hassigned
          rw [if_pos (by simp [hne]), h.captures_assigned hne, ih .nothing]
          rfl
        · have hpassed : assignment.captures (passed ++ c :: cs) = assignment.captures (c :: cs) := by
            by_cases hsign : c = '='
            · rw [h.passed_eq_nil (by_contra fun hne ↦ hassigned ⟨hsign, hne⟩)]
              rfl
            · exact h.captures_append (by simpa using hblank) (.inr (by simpa using hword))
                (by simpa using hsign)
          rw [if_neg (by simpa using hassigned), ih .nothing, hpassed,
            captures_sign (by simpa using hword) (by simpa using hblank)]
          rfl

end

theorem assignedNames_eq (line : List Char) : assignedNames line = assignment.captures line :=
  assignedFrom_eq .nothing

theorem ne_nil_of_mem_assignedFrom {name word cs : List Char} {within : Bool}
    (h : name ∈ assignedFrom word within cs) : name ≠ [] := by
  induction cs generalizing word within with
  | nil => exact absurd h List.not_mem_nil
  | cons c cs ih =>
    rw [assignedFrom] at h
    split_ifs at h with _ _ _ hassigned
    · exact ih h
    · exact ih h
    · exact ih h
    · rcases List.mem_cons.mp h with rfl | h
      · simpa using (Bool.and_eq_true_iff.mp hassigned).2
      · exact ih h
    · exact ih h

theorem ne_nil_of_mem_captures {name line : List Char} (h : name ∈ assignment.captures line) :
    name ≠ [] := by
  rw [← assignedNames_eq] at h
  exact ne_nil_of_mem_assignedFrom h

/-! Lines that are removed -/

/-- The line has names before equals signs, and is not one of those whose signs do something else or
which goes on behind it. -/
structure IsEligible (line : List Char) : Prop where
  captures : assignment.captures line ≠ []
  complete : ¬ ['_'] <:+ Text.trim line
  assigning : ∀ start ∈ ["If ", "For ", "Do ", "."], ¬ start.toList <+: Text.trim line
  outside : ¬ "let .".toList <+: Text.lowerChars (Text.trim line)

/-- The line is eligible, and so is every line with one of its names in it, which captures the name
as well. -/
structure IsUnreferenced (lines : List (List Char)) (line : List Char) : Prop where
  eligible : IsEligible line
  unread : ∀ name ∈ assignment.captures line, ∀ other ∈ lines, name <:+: other →
    IsEligible other ∧ name ∈ assignment.captures other

theorem isEligible_iff (line : List Char) :
    IsEligible line ↔ isExempt line = false ∧ assignment.captures line ≠ [] := by
  have hexempt : isExempt line = false ↔ ¬ ['_'] <:+ Text.trim line ∧
      (∀ start ∈ ["If ", "For ", "Do ", "."], ¬ start.toList <+: Text.trim line) ∧
      ¬ "let .".toList <+: Text.lowerChars (Text.trim line) := by
    rw [← Bool.not_eq_true]
    simp only [isExempt, Bool.or_eq_true, List.any_eq_true, List.isPrefixOf_iff_prefix,
      List.isSuffixOf_iff_suffix, not_or, not_exists, not_and, and_assoc]
  rw [hexempt]
  exact ⟨fun h ↦ ⟨⟨h.complete, h.assigning, h.outside⟩, h.captures⟩,
    fun h ↦ ⟨h.2, h.1.1, h.1.2.1, h.1.2.2⟩⟩

theorem assigned_of (line : List Char) :
    (CodeLine.of line).assigned = if isExempt line then [] else assignment.captures line := by
  rw [CodeLine.of, assignedNames_eq]

theorem mem_assigned_iff (name line : List Char) :
    name ∈ (CodeLine.of line).assigned ↔ IsEligible line ∧ name ∈ assignment.captures line := by
  rw [assigned_of, isEligible_iff]
  by_cases hexempt : isExempt line = true
  · simp [hexempt]
  · rw [if_neg hexempt]
    exact ⟨fun h ↦ ⟨⟨by simpa using hexempt, List.ne_nil_of_mem h⟩, h⟩, fun h ↦ h.2⟩

theorem assigned_ne_nil_iff (line : List Char) :
    (CodeLine.of line).assigned ≠ [] ↔ IsEligible line := by
  rw [assigned_of, isEligible_iff]
  by_cases hexempt : isExempt line = true <;> simp [hexempt]

theorem isDead_iff (lines : List (List Char)) (line : List Char) :
    IsDead (lines.map CodeLine.of) (CodeLine.of line) ↔ IsUnreferenced lines line := by
  constructor
  · intro h
    have heligible := (assigned_ne_nil_iff line).mp h.assigns
    refine ⟨heligible, fun name hname other hother hoccurs ↦ ?_⟩
    have hassigned := (mem_assigned_iff name line).mpr ⟨heligible, hname⟩
    exact (mem_assigned_iff name other).mp
      (h.unread name hassigned _ (List.mem_map_of_mem hother) hoccurs)
  · intro h
    refine ⟨(assigned_ne_nil_iff line).mpr h.eligible, fun name hname ↦ ?_⟩
    have hcaptured := ((mem_assigned_iff name line).mp hname).2
    exact List.forall_mem_map.mpr fun other hother hoccurs ↦
      (mem_assigned_iff name other).mpr (h.unread name hcaptured other hother hoccurs)

instance (lines : List (List Char)) (line : List Char) : Decidable (IsUnreferenced lines line) :=
  decidable_of_iff _ (isDead_iff lines line)

/-- The lines of a text. -/
def textLines (code : String) : List (List Char) :=
  Text.splitOn ['\n'] code.toList

/-- What remains of a text are the lines that are not unreferenced assignments. -/
theorem withoutUnused_eq (code : String) :
    (withoutUnused code).toList =
      ((textLines code).filter fun line ↦ ¬ IsUnreferenced (textLines code) line).flatMap
        (· ++ ['\n']) := by
  have hlines : codeLines code = (textLines code).map CodeLine.of := rfl
  have hkept (line : List Char) : (!(CodeLine.of line).isUseless (codeLines code)) =
      decide (¬ IsUnreferenced (textLines code) line) := by
    rw [Bool.eq_iff_iff, Bool.not_eq_true', ← Bool.not_eq_true, isUseless_iff, hlines, isDead_iff,
      decide_eq_true_iff]
  rw [toList_withoutUnused]
  simp only [hlines, List.filter_map, List.flatMap_map, Function.comp_def] at hkept ⊢
  simp only [hkept]
  rfl

/-- The text without its unused assignments has the lines of the text, in their order and each with a
line end, except for exactly the unreferenced assignments. What such a line captures occurs in the
result only on eligible lines that capture it. -/
theorem withoutUnused_exact (code : String) :
    (∀ line ∈ textLines code, '\n' ∉ line) ∧
      (textLines code).flatMap (· ++ ['\n']) = code.toList ++ ['\n'] ∧
      (withoutUnused code).toList =
        ((textLines code).filter fun line ↦ ¬ IsUnreferenced (textLines code) line).flatMap
          (· ++ ['\n']) ∧
      ∀ line ∈ textLines code, IsUnreferenced (textLines code) line →
        ∀ name ∈ assignment.captures line, ∀ kept ∈ textLines (withoutUnused code),
          name <:+: kept → IsEligible kept ∧ name ∈ assignment.captures kept := by
  have hlines : ∀ line ∈ textLines code, '\n' ∉ line :=
    fun line hline ↦ Text.not_mem_of_mem_splitOn_lineEnd hline
  refine ⟨hlines, Text.flatMap_splitOn_lineEnd _, withoutUnused_eq code, ?_⟩
  intro line hline hunread name hname kept hkept hoccurs
  have hresult : textLines (withoutUnused code) =
      ((textLines code).filter fun line ↦ ¬ IsUnreferenced (textLines code) line) ++ [[]] := by
    rw [textLines, withoutUnused_eq]
    exact Text.splitOn_flatMap_lineEnd fun line hline ↦ hlines line (List.mem_of_mem_filter hline)
  rw [hresult] at hkept
  rcases List.mem_append.mp hkept with hkept | hkept
  · exact hunread.unread name hname kept (List.mem_of_mem_filter hkept) hoccurs
  · rw [List.mem_singleton.mp hkept, List.infix_nil] at hoccurs
    exact absurd hoccurs (ne_nil_of_mem_captures hname)

/-- Two lines assign a name; one of them also assigns a name that is read. -/
def sharedName : String := "q = 1\nq = b = 1\nMsgBox b"

theorem withoutUnused_exact_sharedName :
    "q = 1".toList ∈ textLines sharedName ∧
      IsUnreferenced (textLines sharedName) "q = 1".toList ∧
      ['q'] ∈ assignment.captures "q = 1".toList ∧
      "q = b = 1".toList ∈ textLines (withoutUnused sharedName) ∧
      ['q'] <:+: "q = b = 1".toList ∧
      IsEligible "q = b = 1".toList ∧ ['q'] ∈ assignment.captures "q = b = 1".toList := by
  have hline : "q = 1".toList ∈ textLines sharedName := by decide
  have hunread : IsUnreferenced (textLines sharedName) "q = 1".toList := by decide +kernel
  have hname : ['q'] ∈ assignment.captures "q = 1".toList := by decide +kernel
  have hkept : "q = b = 1".toList ∈ textLines (withoutUnused sharedName) := by decide +kernel
  have hoccurs : ['q'] <:+: "q = b = 1".toList := by decide
  exact ⟨hline, hunread, hname, hkept, hoccurs,
    (withoutUnused_exact sharedName).2.2.2 _ hline hunread _ hname _ hkept hoccurs⟩

end VbaTrace.Source
