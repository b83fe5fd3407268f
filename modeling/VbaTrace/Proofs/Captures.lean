import Mathlib.Data.List.Infix
import VbaTrace.Text.Class

/-!
Regular expressions over classes of characters. The ways in which an expression matches the front of
a text are listed in the order in which they are tried (`Regex.ways`), and the first one counts. What
the groups of an expression capture in a text is found from left to right, without overlap
(`Regex.captures`).

A repeated class takes as much as it can. Where what follows it cannot start with a character of the
class, taking less leads nowhere, and only one way remains (`flatMap_greedy`). Blanks and the
characters of words are such classes (`isWordChar_of_isBlank`).
-/

set_option autoImplicit false

namespace VbaTrace.Text

/-! Blanks and words -/

/-- The blanks beyond ASCII. -/
def wideBlanks : List Nat :=
  [0x85, 0xA0, 0x1680, 0x2028, 0x2029, 0x202F, 0x205F, 0x3000] ++ (List.range 11).map (0x2000 + ·)

theorem inRuns_wideBlanks : ∀ n ∈ wideBlanks, inRuns alphanumericRuns n = false := by
  decide +kernel

theorem mem_wideBlanks {c : Char} (h : isBlank c = true) (hwide : 128 ≤ c.toNat) :
    c.toNat ∈ wideBlanks := by
  simp only [isBlank, Bool.or_eq_true, Bool.and_eq_true, decide_eq_true_eq, beq_iff_eq] at h
  simp only [wideBlanks, List.mem_append, List.mem_cons, List.mem_map, List.mem_range]
  by_cases hrange : 0x2000 ≤ c.toNat ∧ c.toNat ≤ 0x200A
  · exact .inr ⟨c.toNat - 0x2000, by omega, by omega⟩
  · omega

theorem isWordChar_of_isBlank {c : Char} (h : isBlank c = true) : isWordChar c = false := by
  by_cases hwide : 128 ≤ c.toNat
  · have hne : c ≠ '_' := by
      rintro rfl
      exact absurd hwide (by decide)
    have hruns := inRuns_wideBlanks _ (mem_wideBlanks h hwide)
    simp [isWordChar, isAlphanumeric, hne, Nat.not_lt.mpr hwide, hruns]
  · have hcodes : ∀ n < 128, isBlank (Char.ofNat n) = true → isWordChar (Char.ofNat n) = false := by
      decide +kernel
    rw [← Char.ofNat_toNat c] at h ⊢
    exact hcodes _ (Nat.lt_of_not_le hwide) h

theorem isBlank_of_isWordChar {c : Char} (h : isWordChar c = true) : isBlank c = false :=
  Bool.eq_false_iff.mpr fun hblank ↦ Bool.noConfusion ((isWordChar_of_isBlank hblank).symm.trans h)

/-! Expressions -/

/-- Expressions from characters of a class, one or as many as there are, in sequence; what a group
matches is captured. -/
inductive Regex
  | one (set : Char → Bool)
  | many (set : Char → Bool)
  | seq (a b : Regex)
  | group (r : Regex)

/-- A match of the front of a text, with what the groups capture. -/
structure Way where
  taken : List Char
  groups : List (List Char)
  rest : List Char

namespace Way

/-- A match and one that follows it. -/
def andThen (w v : Way) : Way :=
  ⟨w.taken ++ v.taken, w.groups ++ v.groups, v.rest⟩

/-- A match of one more character. -/
def consTaken (c : Char) (w : Way) : Way :=
  { w with taken := c :: w.taken }

end Way

namespace Regex

/-- The matches of a repeated class, the longest first. -/
def greedy (set : Char → Bool) : List Char → List Way
  | [] => [⟨[], [], []⟩]
  | c :: cs =>
    if set c then (greedy set cs).map (Way.consTaken c) ++ [⟨[], [], c :: cs⟩]
    else [⟨[], [], c :: cs⟩]

/-- The ways in which an expression matches the front of a text, in the order in which they are
tried. -/
def ways : Regex → List Char → List Way
  | one _, [] => []
  | one set, c :: cs => if set c then [⟨[c], [], cs⟩] else []
  | many set, cs => greedy set cs
  | seq a b, cs => (a.ways cs).flatMap fun w ↦ (b.ways w.rest).map w.andThen
  | group r, cs => (r.ways cs).map fun w ↦ { w with groups := w.taken :: w.groups }

/-- What is captured in a text; `skip` characters belong to the last match. -/
def capturesFrom (r : Regex) : Nat → List Char → List (List Char)
  | _, [] => ((r.ways []).head?.map Way.groups).getD []
  | skip + 1, _ :: cs => r.capturesFrom skip cs
  | 0, c :: cs =>
    match (r.ways (c :: cs)).head? with
    | some w => w.groups ++ r.capturesFrom (w.taken.length - 1) cs
    | none => r.capturesFrom 0 cs

/-- What the groups of an expression capture in a text. -/
def captures (r : Regex) (cs : List Char) : List (List Char) :=
  r.capturesFrom 0 cs

theorem taken_append_rest_of_greedy {set : Char → Bool} {cs : List Char} {w : Way}
    (h : w ∈ greedy set cs) : w.taken ++ w.rest = cs := by
  induction cs generalizing w with
  | nil =>
    rw [List.mem_singleton.mp h]
    rfl
  | cons c cs ih =>
    rw [greedy] at h
    split_ifs at h
    · rcases List.mem_append.mp h with h | h
      · obtain ⟨v, hv, rfl⟩ := List.mem_map.mp h
        exact congrArg (c :: ·) (ih hv)
      · rw [List.mem_singleton.mp h]
        rfl
    · rw [List.mem_singleton.mp h]
      rfl

theorem taken_append_rest {r : Regex} {cs : List Char} {w : Way} (h : w ∈ r.ways cs) :
    w.taken ++ w.rest = cs := by
  induction r generalizing cs w with
  | one set =>
    cases cs with
    | nil => exact absurd h List.not_mem_nil
    | cons c cs =>
      rw [ways] at h
      split_ifs at h
      · rw [List.mem_singleton.mp h]
        rfl
      · exact absurd h List.not_mem_nil
  | many set => exact taken_append_rest_of_greedy h
  | seq a b iha ihb =>
    obtain ⟨v, hv, hw⟩ := List.mem_flatMap.mp h
    obtain ⟨u, hu, rfl⟩ := List.mem_map.mp hw
    change v.taken ++ u.taken ++ u.rest = cs
    rw [List.append_assoc, ihb hu, iha hv]
  | group r ih =>
    obtain ⟨v, hv, rfl⟩ := List.mem_map.mp h
    change v.taken ++ v.rest = cs
    exact ih hv

/-- Every match takes a character. -/
def consumes : Regex → Bool
  | one _ => true
  | many _ => false
  | seq a b => a.consumes || b.consumes
  | group r => r.consumes

theorem taken_ne_nil {r : Regex} (hr : r.consumes = true) {cs : List Char} {w : Way}
    (h : w ∈ r.ways cs) : w.taken ≠ [] := by
  induction r generalizing cs w with
  | one set =>
    cases cs with
    | nil => exact absurd h List.not_mem_nil
    | cons c cs =>
      rw [ways] at h
      split_ifs at h
      · rw [List.mem_singleton.mp h]
        exact List.cons_ne_nil _ _
      · exact absurd h List.not_mem_nil
  | many set => exact Bool.noConfusion hr
  | seq a b iha ihb =>
    obtain ⟨v, hv, hw⟩ := List.mem_flatMap.mp h
    obtain ⟨u, hu, rfl⟩ := List.mem_map.mp hw
    rcases Bool.or_eq_true_iff.mp hr with ha | hb
    · exact List.append_ne_nil_of_left_ne_nil (iha ha hv) _
    · exact List.append_ne_nil_of_right_ne_nil _ (ihb hb hu)
  | group r ih =>
    obtain ⟨v, hv, rfl⟩ := List.mem_map.mp h
    exact ih (w := v) hr hv

theorem capturesFrom_skip (r : Regex) (n : Nat) (cs : List Char) :
    r.capturesFrom n cs = r.captures (cs.drop n) := by
  unfold captures
  induction n generalizing cs with
  | zero => rfl
  | succ n ih =>
    cases cs with
    | nil => simp [capturesFrom]
    | cons c cs => exact ih cs

section

variable {r : Regex} {cs : List Char}

/-- A match is captured, and what stands behind it is searched for the next one. -/
theorem captures_of_some {w : Way} (h : (r.ways cs).head? = some w) (htaken : w.taken ≠ []) :
    r.captures cs = w.groups ++ r.captures w.rest := by
  have htext := taken_append_rest (List.mem_of_head? h)
  obtain ⟨c, taken, hcons⟩ := List.exists_cons_of_ne_nil htaken
  rw [hcons, List.cons_append] at htext
  subst htext
  rw [captures, capturesFrom, h]
  dsimp only
  rw [capturesFrom_skip, hcons, List.length_cons, Nat.add_sub_cancel, List.drop_left]

theorem captures_of_none {c : Char} (h : (r.ways (c :: cs)).head? = none) :
    r.captures (c :: cs) = r.captures cs := by
  rw [captures, capturesFrom, h]
  rfl

end

/-! Repeated classes -/

theorem head?_greedy (set : Char → Bool) (cs : List Char) :
    (greedy set cs).head? = some ⟨cs.takeWhile set, [], cs.dropWhile set⟩ := by
  induction cs with
  | nil => rfl
  | cons c cs ih =>
    rw [greedy]
    split_ifs with hc
    · simp [ih, hc, Way.consTaken]
    · simp [hc]

/-- Only the longest match of a repeated class counts if nothing goes on behind a shorter one. -/
theorem flatMap_greedy {α : Type} (set : Char → Bool) {next : Way → List α}
    (hnext : ∀ taken groups c cs, set c = true → next ⟨taken, groups, c :: cs⟩ = [])
    (cs : List Char) :
    (greedy set cs).flatMap next = next ⟨cs.takeWhile set, [], cs.dropWhile set⟩ := by
  induction cs generalizing next with
  | nil => simp [greedy]
  | cons c cs ih =>
    rw [greedy]
    split_ifs with hc
    · have hshorter : (greedy set cs).flatMap (fun w ↦ next (w.consTaken c)) = _ :=
        ih fun taken groups d ds hd ↦ hnext (c :: taken) groups d ds hd
      rw [List.flatMap_append, List.flatMap_map, hshorter]
      simp [hc, hnext, Way.consTaken]
    · simp [hc]

/-- The expression matches nothing that starts with a character of the class. -/
def Refuses (r : Regex) (set : Char → Bool) : Prop :=
  ∀ c cs, set c = true → r.ways (c :: cs) = []

theorem ways_many_seq {set : Char → Bool} {r : Regex} (hr : r.Refuses set) (cs : List Char) :
    ((many set).seq r).ways cs =
      (r.ways (cs.dropWhile set)).map
        (Way.andThen ⟨cs.takeWhile set, [], cs.dropWhile set⟩) := by
  rw [ways, ways]
  refine flatMap_greedy set (fun taken groups c ds hc ↦ ?_) cs
  rw [hr c ds hc]
  rfl

/-- A captured word takes all characters of its class. -/
theorem ways_word_seq {set : Char → Bool} {r : Regex} (hr : r.Refuses set) {c : Char}
    (hc : set c = true) (cs : List Char) :
    ((group ((one set).seq (many set))).seq r).ways (c :: cs) =
      (r.ways (cs.dropWhile set)).map
        (Way.andThen ⟨c :: cs.takeWhile set, [c :: cs.takeWhile set], cs.dropWhile set⟩) := by
  have hword : ((one set).seq (many set)).ways (c :: cs) =
      (greedy set cs).map (Way.andThen ⟨[c], [], cs⟩) := by
    simp [ways, hc]
  rw [ways, ways, hword, List.map_map, List.flatMap_map]
  refine flatMap_greedy set (fun taken groups d ds hd ↦ ?_) cs
  change (r.ways (d :: ds)).map _ = []
  rw [hr d ds hd]
  rfl

end Regex

end VbaTrace.Text
