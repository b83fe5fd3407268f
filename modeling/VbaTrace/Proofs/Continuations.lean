import Mathlib.Data.List.Infix
import VbaTrace.Proofs.Searching
import VbaTrace.Source.Collapse

/-!
What joining continued lines leaves of a text. The text is cut at its blanks (`Pieces`). Each of the
three replacements acts on the pieces behind a blank only, and takes one line end with its underscore
from the front of such a piece (`joinContinued_text`), so all of them together take at most one of
each kind, in their order.

A piece that starts with more line ends keeps the last ones, and the blank before it makes a new
continuation of them (`startsWithEnd_stripped_iff`). And the last piece may vanish, with the line end
that the text was given for its last line (`stripped_eq_nil_iff`). These are the only ways in which
the result still has a continuation, or in which collapsing it again changes it
(`collapse_final_iff`).
-/

set_option autoImplicit false

namespace VbaTrace.Source

/-! Pieces between blanks -/

/-- A text cut at its blanks: what stands before the first one, and what stands behind each. -/
structure Pieces where
  first : List Char
  others : List (List Char)
  first_unbroken : ' ' ∉ first
  others_unbroken : ∀ q ∈ others, ' ' ∉ q

namespace Pieces

variable (p : Pieces)

def text : List Char :=
  p.first ++ p.others.flatMap (' ' :: ·)

/-- Changes what stands behind the blanks. -/
def mapOthers (f : List Char → List Char) (hf : ∀ q, f q <:+ q) : Pieces where
  first := p.first
  others := p.others.map f
  first_unbroken := p.first_unbroken
  others_unbroken := List.forall_mem_map.mpr fun q hq hblank ↦
    p.others_unbroken q hq ((hf q).subset hblank)

theorem others_mapOthers (f : List Char → List Char) (hf : ∀ q, f q <:+ q) :
    (p.mapOthers f hf).others = p.others.map f :=
  rfl

theorem exists_text_eq (cs : List Char) : ∃ p : Pieces, p.text = cs := by
  induction cs with
  | nil => exact ⟨⟨[], [], List.not_mem_nil, fun _ h ↦ nomatch h⟩, rfl⟩
  | cons c cs ih =>
    obtain ⟨p, rfl⟩ := ih
    by_cases hc : c = ' '
    · subst hc
      refine ⟨⟨[], p.first :: p.others, List.not_mem_nil, ?_⟩, rfl⟩
      exact List.forall_mem_cons.mpr ⟨p.first_unbroken, p.others_unbroken⟩
    · refine ⟨⟨c :: p.first, p.others, ?_, p.others_unbroken⟩, rfl⟩
      exact List.not_mem_cons_of_ne_of_not_mem (Ne.symm hc) p.first_unbroken

end Pieces

/-- A word without blanks that a piece continues to is a word of the piece. -/
theorem prefix_piece_iff {front q : List Char} (hfront : ' ' ∉ front) (others : List (List Char)) :
    front <+: q ++ others.flatMap (' ' :: ·) ↔ front <+: q := by
  induction front generalizing q with
  | nil => simp
  | cons c front ih =>
    obtain ⟨hc, hfront⟩ := List.ne_and_not_mem_of_not_mem_cons hfront
    cases q with
    | nil => cases others <;> simp [hc.symm]
    | cons d q =>
      rw [List.cons_append, List.cons_prefix_cons, List.cons_prefix_cons, ih hfront]

/-- Takes a word from the front of a piece. -/
def dropFront (front q : List Char) : List Char :=
  if front.isPrefixOf q then q.drop front.length else q

theorem dropFront_append (front q : List Char) : dropFront front (front ++ q) = q := by
  simp [dropFront]

theorem dropFront_of_not {front q : List Char} (h : ¬ front <+: q) : dropFront front q = q := by
  rw [dropFront, if_neg (by simpa using h)]

theorem dropFront_suffix (front q : List Char) : dropFront front q <:+ q := by
  unfold dropFront
  split_ifs
  · exact List.drop_suffix _ _
  · exact List.suffix_rfl

/-! Replacing behind blanks -/

theorem replaceFrom_skip (pattern new : List Char) (n : Nat) (cs : List Char) :
    Text.replaceFrom pattern new n cs = Text.replaceFrom pattern new 0 (cs.drop n) := by
  induction n generalizing cs with
  | zero => rfl
  | succ n ih =>
    cases cs with
    | nil => simp [Text.replaceFrom]
    | cons c cs => exact ih cs

theorem replaceFrom_unbroken {first : List Char} (hfirst : ' ' ∉ first) (front cs : List Char) :
    Text.replaceFrom (' ' :: front) [' '] 0 (first ++ cs) =
      first ++ Text.replaceFrom (' ' :: front) [' '] 0 cs := by
  induction first with
  | nil => rfl
  | cons c first ih =>
    obtain ⟨hc, hfirst⟩ := List.ne_and_not_mem_of_not_mem_cons hfirst
    simp [Text.replaceFrom, hc, ih hfirst]

theorem replaceFrom_blank {front : List Char} (hfront : ' ' ∉ front) (q : List Char)
    (others : List (List Char)) :
    Text.replaceFrom (' ' :: front) [' '] 0 (' ' :: (q ++ others.flatMap (' ' :: ·))) =
      ' ' :: Text.replaceFrom (' ' :: front) [' '] 0
        (dropFront front q ++ others.flatMap (' ' :: ·)) := by
  rw [Text.replaceFrom, List.isPrefixOf_cons_cons, beq_self_eq_true, Bool.true_and]
  by_cases hword : front <+: q
  · obtain ⟨rest, rfl⟩ := hword
    rw [if_pos (by simp), replaceFrom_skip, dropFront_append, List.length_cons,
      Nat.add_sub_cancel, List.append_assoc, List.drop_left]
    rfl
  · have hnot : ¬ front.isPrefixOf (q ++ others.flatMap (' ' :: ·)) = true := by
      rwa [List.isPrefixOf_iff_prefix, prefix_piece_iff hfront]
    rw [if_neg hnot, dropFront_of_not hword]

/-- Replacing a blank with a word behind it by the blank takes the word from the pieces behind
blanks. -/
theorem Pieces.replaceAll_text (p : Pieces) {front : List Char} (hfront : ' ' ∉ front) :
    Text.replaceAll (' ' :: front) [' '] p.text =
      (p.mapOthers (dropFront front) (dropFront_suffix front)).text := by
  obtain ⟨first, others, hfirst, hothers⟩ := p
  change Text.replaceFrom _ _ 0 (first ++ others.flatMap (' ' :: ·)) =
    first ++ (others.map (dropFront front)).flatMap (' ' :: ·)
  rw [replaceFrom_unbroken hfirst]
  congr 1
  induction others with
  | nil => rfl
  | cons q others ih =>
    obtain ⟨hq, hothers⟩ := List.forall_mem_cons.mp hothers
    have hdropped : ' ' ∉ dropFront front q := fun h ↦ hq ((dropFront_suffix front q).subset h)
    rw [List.flatMap_cons, List.cons_append, replaceFrom_blank hfront,
      replaceFrom_unbroken hdropped, ih hothers]
    rfl

/-- What the three replacements leave of a piece behind a blank. -/
def stripped (q : List Char) : List Char :=
  dropFront ['_', '\n'] (dropFront ['_', '\r'] (dropFront ['_', '\r', '\n'] q))

theorem stripped_suffix (q : List Char) : stripped q <:+ q :=
  ((dropFront_suffix _ _).trans (dropFront_suffix _ _)).trans (dropFront_suffix _ _)

theorem Pieces.mapOthers_mapOthers (p : Pieces) {f g : List Char → List Char}
    (hf : ∀ q, f q <:+ q) (hg : ∀ q, g q <:+ q) :
    ((p.mapOthers f hf).mapOthers g hg).text =
      (p.mapOthers (fun q ↦ g (f q)) fun q ↦ (hg _).trans (hf q)).text := by
  simp [mapOthers, text, Function.comp_def]

/-- Joining continued lines strips every piece behind a blank. -/
theorem joinContinued_text (p : Pieces) :
    (joinContinued (String.ofList p.text)).toList = (p.mapOthers stripped stripped_suffix).text := by
  have hmarks : joinContinued (String.ofList p.text) =
      Text.replace " _\n" " " (Text.replace " _\r" " " (Text.replace " _\r\n" " "
        (String.ofList p.text))) := rfl
  have hpass {front : List Char} (hfront : ' ' ∉ front) (q : Pieces) :
      Text.replace (String.ofList (' ' :: front)) " " (String.ofList q.text) =
        String.ofList (q.mapOthers (dropFront front) (dropFront_suffix front)).text := by
    change String.ofList (Text.replaceAll (String.ofList _).toList [' '] (String.ofList _).toList) = _
    rw [String.toList_ofList, String.toList_ofList, q.replaceAll_text hfront]
  rw [hmarks, show " _\n" = String.ofList [' ', '_', '\n'] from rfl,
    show " _\r" = String.ofList [' ', '_', '\r'] from rfl,
    show " _\r\n" = String.ofList [' ', '_', '\r', '\n'] from rfl,
    hpass (by decide), hpass (by decide), hpass (by decide), String.toList_ofList,
    Pieces.mapOthers_mapOthers, Pieces.mapOthers_mapOthers]
  rfl


/-! Continuations that remain -/

theorem infix_unbroken {first : List Char} (hfirst : ' ' ∉ first) (front cs : List Char) :
    ' ' :: front <:+: first ++ cs ↔ ' ' :: front <:+: cs := by
  induction first with
  | nil => rfl
  | cons c first ih =>
    obtain ⟨hc, hfirst⟩ := List.ne_and_not_mem_of_not_mem_cons hfirst
    rw [List.cons_append, List.infix_cons_iff, List.cons_prefix_cons, ih hfirst]
    simp [hc]

theorem Pieces.infix_text_iff (p : Pieces) {front : List Char} (hfront : ' ' ∉ front) :
    ' ' :: front <:+: p.text ↔ ∃ q ∈ p.others, front <+: q := by
  obtain ⟨first, others, hfirst, hothers⟩ := p
  change ' ' :: front <:+: first ++ others.flatMap (' ' :: ·) ↔ ∃ q ∈ others, front <+: q
  rw [infix_unbroken hfirst]
  induction others with
  | nil => simp
  | cons q others ih =>
    obtain ⟨hq, hothers⟩ := List.forall_mem_cons.mp hothers
    rw [List.flatMap_cons, List.cons_append, List.infix_cons_iff, List.cons_prefix_cons,
      prefix_piece_iff hfront, infix_unbroken hq, ih hothers]
    simp

/-- A line end behind an underscore, which continues a line when a blank stands before it. -/
def StartsWithEnd (q : List Char) : Prop :=
  ['_', '\r'] <+: q ∨ ['_', '\n'] <+: q

/-- Line ends behind underscores of which the last one is not taken away. -/
def stackedEnds : List (List Char) :=
  [['_', '\n', '_', '\r'], ['_', '\n', '_', '\n'], ['_', '\r', '_', '\r'],
    ['_', '\r', '_', '\n', '_', '\r'], ['_', '\r', '_', '\n', '_', '\n']]

theorem startsWithEnd_dropFront_iff (q : List Char) :
    StartsWithEnd (dropFront ['_', '\n'] (dropFront ['_', '\r'] q)) ↔
      ∃ w ∈ stackedEnds, w <+: q := by
  have hlonger {front q : List Char} (h : ¬ front <+: q) (w : List Char) : ¬ front ++ w <+: q :=
    fun hw ↦ h ((List.prefix_append front w).trans hw)
  unfold StartsWithEnd
  by_cases hreturn : ['_', '\r'] <+: q
  · obtain ⟨q, rfl⟩ := hreturn
    rw [dropFront_append]
    by_cases hfeed : ['_', '\n'] <+: q
    · obtain ⟨q, rfl⟩ := hfeed
      rw [dropFront_append]
      simp [stackedEnds]
    · have hfirst : ¬ ['_', '\n', '_', '\r'] <+: q := hlonger hfeed ['_', '\r']
      have hsecond : ¬ ['_', '\n', '_', '\n'] <+: q := hlonger hfeed ['_', '\n']
      rw [dropFront_of_not hfeed]
      simp [stackedEnds, hfeed, hfirst, hsecond]
  · rw [dropFront_of_not hreturn]
    by_cases hfeed : ['_', '\n'] <+: q
    · obtain ⟨q, rfl⟩ := hfeed
      rw [dropFront_append]
      simp [stackedEnds]
    · rw [dropFront_of_not hfeed]
      have hnone : ∀ w ∈ stackedEnds, ¬ w <+: q := by
        simpa [stackedEnds] using ⟨hlonger hfeed ['_', '\r'], hlonger hfeed ['_', '\n'],
          hlonger hreturn ['_', '\r'], hlonger hreturn ['_', '\n', '_', '\r'],
          hlonger hreturn ['_', '\n', '_', '\n']⟩
      simp [hreturn, hfeed]
      exact hnone

/-- A piece starts with a line end behind its underscore, when it has been stripped, exactly if it
starts with line ends that are not all taken away. -/
theorem startsWithEnd_stripped_iff (q : List Char) :
    StartsWithEnd (stripped q) ↔
      ∃ w ∈ stackedEnds, w <+: q ∨ ['_', '\r', '\n'] ++ w <+: q := by
  unfold stripped
  rw [startsWithEnd_dropFront_iff]
  by_cases hboth : ['_', '\r', '\n'] <+: q
  · obtain ⟨q, rfl⟩ := hboth
    rw [dropFront_append]
    simp [stackedEnds]
  · rw [dropFront_of_not hboth]
    have hnot (w : List Char) : ¬ ['_', '\r', '\n'] ++ w <+: q :=
      fun hw ↦ hboth ((List.prefix_append _ w).trans hw)
    simp only [hnot, or_false]

theorem length_dropFront_lt {front q : List Char} (h : front <+: q) (hfront : front ≠ []) :
    (dropFront front q).length < q.length := by
  obtain ⟨rest, rfl⟩ := h
  rw [dropFront_append, List.length_append]
  exact Nat.lt_add_of_pos_left (List.length_pos_iff.mpr hfront)

/-- Nothing is taken from a piece exactly if it does not start with a line end behind an
underscore. -/
theorem stripped_eq_self_iff (q : List Char) : stripped q = q ↔ ¬ StartsWithEnd q := by
  constructor
  · intro hsame hstart
    have hshort := congrArg List.length hsame
    unfold stripped at hshort
    have h₁ := (dropFront_suffix ['_', '\r', '\n'] q).length_le
    have h₂ := (dropFront_suffix ['_', '\r'] (dropFront ['_', '\r', '\n'] q)).length_le
    have h₃ := (dropFront_suffix ['_', '\n']
      (dropFront ['_', '\r'] (dropFront ['_', '\r', '\n'] q))).length_le
    by_cases hboth : ['_', '\r', '\n'] <+: q
    · have := length_dropFront_lt hboth (List.cons_ne_nil _ _)
      omega
    · rw [dropFront_of_not hboth] at *
      by_cases hreturn : ['_', '\r'] <+: q
      · have := length_dropFront_lt hreturn (List.cons_ne_nil _ _)
        omega
      · rw [dropFront_of_not hreturn] at *
        have := length_dropFront_lt (hstart.resolve_left hreturn) (List.cons_ne_nil _ _)
        omega
  · intro hstart
    obtain ⟨hreturn, hfeed⟩ := not_or.mp hstart
    have hboth : ¬ ['_', '\r', '\n'] <+: q :=
      fun h ↦ hreturn ((List.prefix_append ['_', '\r'] ['\n']).trans h)
    rw [stripped, dropFront_of_not hboth, dropFront_of_not hreturn, dropFront_of_not hfeed]

/-- The pieces behind blanks that vanish with the line end at their end. -/
def vanishingEnds : List (List Char) :=
  [['_', '\r', '\n', '_', '\r', '_', '\n'], ['_', '\r', '_', '\n'], ['_', '\r', '\n', '_', '\n'],
    ['_', '\n'], ['_', '\r', '\n']]

theorem dropFront_eq_iff {front q r : List Char} :
    dropFront front q = r ↔ q = front ++ r ∨ q = r ∧ ¬ front <+: r := by
  by_cases h : front <+: q
  · obtain ⟨rest, rfl⟩ := h
    rw [dropFront_append, List.append_cancel_left_eq]
    refine ⟨.inl, fun hor ↦ hor.elim id fun hsame ↦ ?_⟩
    exact absurd (List.prefix_append front rest) (hsame.1 ▸ hsame.2)
  · rw [dropFront_of_not h]
    refine ⟨fun hsame ↦ .inr ⟨hsame, hsame ▸ h⟩, fun hor ↦ hor.elim (fun hword ↦ ?_) (·.1)⟩
    exact absurd (hword ▸ List.prefix_append front r) h

theorem stripped_eq_nil_iff {q : List Char} (hend : ['\n'] <:+ q) :
    stripped q = [] ↔ q ∈ vanishingEnds := by
  have hnil : q ≠ [] := by
    rintro rfl
    exact absurd hend (by decide)
  have hreturn : q ≠ ['_', '\r'] := by
    rintro rfl
    exact absurd hend (by decide)
  have hboth : q ≠ ['_', '\r', '\n', '_', '\r'] := by
    rintro rfl
    exact absurd hend (by decide)
  simp [stripped, dropFront_eq_iff, vanishingEnds, hnil, hreturn, hboth, or_assoc]

theorem text_mapOthers_eq_iff (p : Pieces) {f : List Char → List Char} (hf : ∀ q, f q <:+ q) :
    (p.mapOthers f hf).text = p.text ↔ ∀ q ∈ p.others, f q = q := by
  have hshorter (others : List (List Char)) :
      ((others.map f).flatMap (' ' :: ·)).length ≤ (others.flatMap (' ' :: ·)).length := by
    induction others with
    | nil => exact le_rfl
    | cons q others ih =>
      have hq := (hf q).length_le
      simp only [List.map_cons, List.flatMap_cons, List.cons_append, List.length_cons,
        List.length_append]
      omega
  change p.first ++ (p.others.map f).flatMap (' ' :: ·) = p.first ++ p.others.flatMap (' ' :: ·) ↔ _
  rw [List.append_cancel_left_eq]
  induction p.others with
  | nil => simp
  | cons q others ih =>
    rw [List.forall_mem_cons, ← ih, List.map_cons, List.flatMap_cons, List.flatMap_cons,
      List.cons_append, List.cons_append, List.cons_inj_right]
    refine ⟨fun h ↦ ?_, fun h ↦ by rw [h.1, h.2]⟩
    have hlength := congrArg List.length h
    rw [List.length_append, List.length_append] at hlength
    have hq := (hf q).length_le
    have hothers := hshorter others
    exact List.append_inj h (by omega)

/-! The end of the text -/

theorem Pieces.exists_text_eq_of_last (p : Pieces) {q : List Char}
    (h : p.others.getLast? = some q) : ∃ front, p.text = front ++ ' ' :: q := by
  obtain ⟨others, hothers⟩ := List.getLast?_eq_some_iff.mp h
  exact ⟨p.first ++ others.flatMap (' ' :: ·), by simp [text, hothers]⟩

/-- What stands behind the last blank of a text is its last piece. -/
theorem Pieces.suffix_text_iff (p : Pieces) {v : List Char} (hv : ' ' ∉ v) :
    ' ' :: v <:+ p.text ↔ p.others.getLast? = some v := by
  constructor
  · intro h
    cases hlast : p.others.getLast? with
    | none =>
      have hfirst : p.text = p.first := by simp [text, List.getLast?_eq_none_iff.mp hlast]
      rw [hfirst] at h
      exact absurd (h.subset List.mem_cons_self) p.first_unbroken
    | some q =>
      have hq := p.others_unbroken q (List.mem_of_getLast? hlast)
      obtain ⟨front, htext⟩ := p.exists_text_eq_of_last hlast
      have hsuffix : ' ' :: q <:+ p.text := htext ▸ List.suffix_append front (' ' :: q)
      rcases List.suffix_or_suffix_of_suffix h hsuffix with h | h
      · rcases List.suffix_cons_iff.mp h with h | h
        · rw [(List.cons.inj h).2]
        · exact absurd (h.subset List.mem_cons_self) hq
      · rcases List.suffix_cons_iff.mp h with h | h
        · rw [(List.cons.inj h).2]
        · exact absurd (h.subset List.mem_cons_self) hv
  · intro hlast
    obtain ⟨front, htext⟩ := p.exists_text_eq_of_last hlast
    rw [htext]
    exact List.suffix_append front _

theorem lineEnd_suffix_blank_iff (front q : List Char) :
    ['\n'] <:+ front ++ ' ' :: q ↔ ['\n'] <:+ q := by
  rw [List.singleton_suffix_iff_getLast?_eq_some, List.singleton_suffix_iff_getLast?_eq_some,
    List.getLast?_append, List.getLast?_cons]
  cases q.getLast? <;> simp

theorem lineEnd_suffix_stripped_iff {q : List Char} (hend : ['\n'] <:+ q) :
    ['\n'] <:+ stripped q ↔ q ∉ vanishingEnds := by
  rw [← stripped_eq_nil_iff hend]
  refine ⟨fun h hnil ↦ absurd (hnil ▸ h) (by decide), fun hne ↦ ?_⟩
  rcases List.suffix_or_suffix_of_suffix hend (stripped_suffix q) with h | h
  · exact h
  · rcases List.suffix_cons_iff.mp h with h | h
    · rw [h]
    · exact absurd (List.suffix_nil.mp h) hne

/-- The line end at the end of a text is lost exactly if the last piece vanishes. -/
theorem lineEnd_suffix_text_iff (p : Pieces) (hend : ['\n'] <:+ p.text) :
    ['\n'] <:+ (p.mapOthers stripped stripped_suffix).text ↔
      ∀ v ∈ vanishingEnds, ¬ ' ' :: v <:+ p.text := by
  have hunbroken : ∀ v ∈ vanishingEnds, ' ' ∉ v := by decide
  have hsuffix : (∀ v ∈ vanishingEnds, ¬ ' ' :: v <:+ p.text) ↔
      ∀ v ∈ vanishingEnds, p.others.getLast? ≠ some v :=
    forall₂_congr fun v hv ↦ not_congr (p.suffix_text_iff (hunbroken v hv))
  rw [hsuffix]
  cases hlast : p.others.getLast? with
  | none =>
    have hothers : p.others = [] := List.getLast?_eq_none_iff.mp hlast
    have hsame : (p.mapOthers stripped stripped_suffix).text = p.text := by
      simp [Pieces.mapOthers, Pieces.text, hothers]
    simpa [hsame] using hend
  | some q =>
    have hmapped : (p.mapOthers stripped stripped_suffix).others.getLast? = some (stripped q) := by
      simp [Pieces.mapOthers, hlast]
    obtain ⟨front, htext⟩ := p.exists_text_eq_of_last hlast
    obtain ⟨front', htext'⟩ := Pieces.exists_text_eq_of_last _ hmapped
    rw [htext, lineEnd_suffix_blank_iff] at hend
    rw [htext', lineEnd_suffix_blank_iff, lineEnd_suffix_stripped_iff hend]
    simp only [ne_eq, Option.some.injEq]
    exact ⟨fun h v hv heq ↦ h (heq ▸ hv), fun h hq ↦ h q hq rfl⟩

/-! Collapsing -/

/-- Continuations of which a part remains as a continuation. -/
def stackedContinuations : List String :=
  (stackedEnds ++ stackedEnds.map (['_', '\r', '\n'] ++ ·)).map fun w ↦ String.ofList (' ' :: w)

/-- Continuations that take the line end from the end of a text. -/
def lastContinuations : List String :=
  vanishingEnds.map fun w ↦ String.ofList (' ' :: w)

example : stackedContinuations =
    [" _\n_\r", " _\n_\n", " _\r_\r", " _\r_\n_\r", " _\r_\n_\n", " _\r\n_\n_\r", " _\r\n_\n_\n",
      " _\r\n_\r_\r", " _\r\n_\r_\n_\r", " _\r\n_\r_\n_\n"] := by decide

theorem contains_ofList_iff (word : List Char) (s : String) :
    Text.contains (String.ofList word) s = false ↔ ¬ word <:+: s.toList := by
  rw [Text.contains, String.toList_ofList, ← Bool.not_eq_true, Text.occursIn_iff_infix]

theorem endsWith_ofList_iff (word : List Char) (s : String) :
    Text.endsWith (String.ofList word) s = false ↔ ¬ word <:+ s.toList := by
  rw [Text.endsWith, String.toList_ofList, ← Bool.not_eq_true, List.isSuffixOf_iff_suffix]

section

variable {p : Pieces} {s : String} (hs : s.toList = p.text)

include hs

theorem no_word_iff {words : List (List Char)} (hwords : ∀ w ∈ words, ' ' ∉ w) :
    (∀ word ∈ words.map fun w ↦ String.ofList (' ' :: w), Text.contains word s = false) ↔
      ∀ q ∈ p.others, ∀ w ∈ words, ¬ w <+: q := by
  have hword : ∀ w ∈ words, Text.contains (String.ofList (' ' :: w)) s = false ↔
      ∀ q ∈ p.others, ¬ w <+: q := by
    intro w hw
    rw [contains_ofList_iff, hs, p.infix_text_iff (hwords w hw)]
    simp
  rw [List.forall_mem_map]
  exact ⟨fun h q hq w hw ↦ (hword w hw).mp (h w hw) q hq,
    fun h w hw ↦ (hword w hw).mpr fun q hq ↦ h q hq w hw⟩

theorem no_continuation_iff : (∀ mark ∈ continuations, Text.contains mark s = false) ↔
    ∀ q ∈ p.others, ¬ StartsWithEnd q := by
  have hmarks : continuations = [['_', '\r', '\n'], ['_', '\r'], ['_', '\n']].map
      fun w ↦ String.ofList (' ' :: w) := rfl
  rw [hmarks, no_word_iff hs (by decide)]
  refine forall₂_congr fun q _ ↦ ?_
  have hboth : ['_', '\r', '\n'] <+: q → ['_', '\r'] <+: q :=
    (List.prefix_append ['_', '\r'] ['\n']).trans
  simp only [List.forall_mem_cons, StartsWithEnd, not_or]
  exact ⟨fun h ↦ ⟨h.2.1, h.2.2.1⟩, fun h ↦ ⟨mt hboth h.1, h.1, h.2, fun _ hw ↦ nomatch hw⟩⟩

theorem no_stacked_iff : (∀ word ∈ stackedContinuations, Text.contains word s = false) ↔
    ∀ q ∈ p.others, ¬ StartsWithEnd (stripped q) := by
  rw [stackedContinuations, no_word_iff hs (by decide)]
  refine forall₂_congr fun q _ ↦ ?_
  rw [startsWithEnd_stripped_iff, List.forall_mem_append, List.forall_mem_map]
  simp only [not_exists, not_and, not_or]
  exact ⟨fun h w hw ↦ ⟨h.1 w hw, h.2 w hw⟩, fun h ↦ ⟨fun w hw ↦ (h w hw).1, fun w hw ↦ (h w hw).2⟩⟩

theorem toList_joinContinued :
    (joinContinued s).toList = (p.mapOthers stripped stripped_suffix).text := by
  rw [← joinContinued_text, ← hs, String.ofList_toList]

/-- Joining continued lines changes nothing exactly where there are none. -/
theorem joinContinued_eq_self_iff :
    joinContinued s = s ↔ ∀ q ∈ p.others, ¬ StartsWithEnd q := by
  rw [← String.toList_inj, toList_joinContinued hs, hs, text_mapOthers_eq_iff]
  exact forall₂_congr fun q _ ↦ stripped_eq_self_iff q

end

theorem endsWith_endLine (code : String) : ['\n'] <:+ (endLine code).toList := by
  unfold endLine
  split_ifs with hend
  · exact List.isSuffixOf_iff_suffix.mp hend
  · rw [String.toList_append]
    exact List.suffix_append _ _

theorem endLine_of_suffix {code : String} (h : ['\n'] <:+ code.toList) : endLine code = code :=
  if_pos (List.isSuffixOf_iff_suffix.mpr h)

theorem endLine_of_not_suffix {code : String} (h : ¬ ['\n'] <:+ code.toList) :
    endLine code = code ++ "\n" :=
  if_neg fun hend ↦ h (List.isSuffixOf_iff_suffix.mp hend)

theorem lineEnd_suffix_joined_iff (code : String) :
    ['\n'] <:+ (joinContinued (endLine code)).toList ↔
      ∀ word ∈ lastContinuations, Text.endsWith word (endLine code) = false := by
  obtain ⟨p, hp⟩ := Pieces.exists_text_eq (endLine code).toList
  have hend : ['\n'] <:+ p.text := hp ▸ endsWith_endLine code
  rw [toList_joinContinued hp.symm, lineEnd_suffix_text_iff p hend, lastContinuations,
    List.forall_mem_map, hp]
  exact forall₂_congr fun v _ ↦ (endsWith_ofList_iff _ _).symm

/-- A text whose last line was continued ends with a blank, so that the line end which it is given
next is not taken away. -/
theorem lineEnd_suffix_joined_again {code : String}
    (h : ¬ ['\n'] <:+ (joinContinued (endLine code)).toList) :
    ['\n'] <:+ (joinContinued (endLine (joinContinued (endLine code)))).toList := by
  obtain ⟨p, hp⟩ := Pieces.exists_text_eq (endLine code).toList
  have hend : ['\n'] <:+ p.text := hp ▸ endsWith_endLine code
  have hjoined := toList_joinContinued hp.symm
  obtain ⟨front, hblank⟩ : ∃ front, (joinContinued (endLine code)).toList = front ++ [' '] := by
    rw [hjoined, lineEnd_suffix_text_iff p hend] at h
    obtain ⟨v, hv, hsuffix⟩ : ∃ v ∈ vanishingEnds, ' ' :: v <:+ p.text := by simpa using h
    have hvanishing : ∀ v ∈ vanishingEnds, ' ' ∉ v ∧ stripped v = [] := by decide
    obtain ⟨hunbroken, hnil⟩ := hvanishing v hv
    have hlast := (p.suffix_text_iff hunbroken).mp hsuffix
    rw [hjoined]
    refine Pieces.exists_text_eq_of_last _ ?_
    rw [Pieces.others_mapOthers, List.getLast?_map, hlast, Option.map_some, hnil]
  have hagain : (endLine (joinContinued (endLine code))).toList = front ++ [' ', '\n'] := by
    rw [endLine_of_not_suffix h, String.toList_append, hblank, List.append_assoc]
    rfl
  rw [lineEnd_suffix_joined_iff, lastContinuations, List.forall_mem_map]
  intro v hv
  rw [endsWith_ofList_iff, hagain]
  intro hsuffix
  have hother : ∀ v ∈ vanishingEnds, ¬ ' ' :: v <:+ [' ', '\n'] ∧ ¬ [' ', '\n'] <:+ ' ' :: v := by
    decide
  exact (List.suffix_or_suffix_of_suffix hsuffix (List.suffix_append front _)).elim
    (hother v hv).1 (hother v hv).2

theorem collapse_of_ne {code : String} (h : code ≠ "") :
    collapse code = .ok (joinContinued (endLine code)) := by
  rw [collapse, if_neg (by simpa using h)]

/-- Collapsing a nonempty text gives a text. It has no continuations exactly if the text, with its
last line ended, has none that are stacked; and collapsing it again changes nothing exactly if,
moreover, the last line is not continued. -/
theorem collapse_final_iff {code : String} (hcode : code ≠ "") :
    ∃ r, collapse code = .ok r ∧
      ((∀ mark ∈ continuations, Text.contains mark r = false) ↔
        ∀ word ∈ stackedContinuations, Text.contains word (endLine code) = false) ∧
      (collapse r = .ok r ↔
        (∀ word ∈ stackedContinuations, Text.contains word (endLine code) = false) ∧
          ∀ word ∈ lastContinuations, Text.endsWith word (endLine code) = false) := by
  obtain ⟨p, hp⟩ := Pieces.exists_text_eq (endLine code).toList
  have hjoined := toList_joinContinued hp.symm
  have hstacked : (∀ word ∈ stackedContinuations, Text.contains word (endLine code) = false) ↔
      ∀ q ∈ (p.mapOthers stripped stripped_suffix).others, ¬ StartsWithEnd q := by
    rw [no_stacked_iff hp.symm, Pieces.others_mapOthers, List.forall_mem_map]
  refine ⟨_, collapse_of_ne hcode, by rw [no_continuation_iff hjoined, hstacked], ?_⟩
  rw [hstacked, ← joinContinued_eq_self_iff hjoined, ← lineEnd_suffix_joined_iff]
  constructor
  · intro hsame
    have hne : joinContinued (endLine code) ≠ "" := by
      intro hempty
      rw [hempty] at hsame
      exact nomatch hsame
    rw [collapse_of_ne hne, Except.ok.injEq] at hsame
    by_cases hend : ['\n'] <:+ (joinContinued (endLine code)).toList
    · rw [endLine_of_suffix hend] at hsame
      exact ⟨hsame, hend⟩
    · have hagain := lineEnd_suffix_joined_again hend
      rw [hsame] at hagain
      exact absurd hagain hend
  · rintro ⟨hsame, hend⟩
    have hne : joinContinued (endLine code) ≠ "" := by
      intro hempty
      rw [hempty] at hend
      exact absurd hend (by decide)
    rw [collapse_of_ne hne, endLine_of_suffix hend, hsame]

theorem collapse_final_iff_plain : "a _\r\nb" ≠ "" ∧
    ∃ r, collapse "a _\r\nb" = .ok r ∧
      (∀ mark ∈ continuations, Text.contains mark r = false) ∧ collapse r = .ok r := by
  have hne : "a _\r\nb" ≠ "" := by decide
  have hstacked : ∀ word ∈ stackedContinuations,
      Text.contains word (endLine "a _\r\nb") = false := by decide
  have hlast : ∀ word ∈ lastContinuations, Text.endsWith word (endLine "a _\r\nb") = false := by
    decide
  obtain ⟨r, hr, hcomplete, hfinal⟩ := collapse_final_iff hne
  exact ⟨hne, r, hr, hcomplete.mpr hstacked, hfinal.mpr ⟨hstacked, hlast⟩⟩

/-- Joining a line to one that starts with an underscore makes a new continuation; and a text whose
last line was continued is given a line end when it is collapsed again. -/
theorem collapse_not_final :
    (¬ ∀ code r, code ≠ "" → collapse code = .ok r →
      ∀ mark ∈ continuations, Text.contains mark r = false) ∧
    ¬ ∀ code r, code ≠ "" → collapse code = .ok r → collapse r = .ok r := by
  constructor
  · intro h
    have hmark := h "a _\n_\nb\n" "a _\nb\n" (by decide) rfl " _\n" (by decide)
    exact absurd hmark (by decide)
  · intro h
    have hsame := h "x _\n" "x " (by decide) rfl
    have htexts : "x \n" = "x " := Except.ok.inj hsame
    exact absurd htexts (by decide)

end VbaTrace.Source
