import Mathlib.Order.Bounds.Basic
import VbaTrace.Proofs.Conversions
import VbaTrace.Proofs.Searching

/-!
Searching for one text in another. `Text.places` are the places at which a pattern stands in a text,
counted from one; they may overlap. The two searches give the least and the greatest of them
(`isLeast_of_find?`, `isGreatest_of_findLast?`), and nothing only if there is none.

A search from a place on looks at the rest of the text from there (`mem_places_drop_iff`), but
whether the pattern occurs at all is asked of the whole text (`search_texts`). So it fails, where it
should give zero, if the pattern occurs only before the place where the search starts
(`Text.OnlyBefore`).
-/

set_option autoImplicit false

namespace VbaTrace

namespace Text

/-- The places of a text, counted from one, at which a pattern stands. -/
def places (pattern cs : List Char) : Set Nat :=
  {place | ∃ before after, cs = before ++ pattern ++ after ∧ place = before.length + 1}

variable {pattern cs : List Char} {place n : Nat}

theorem one_le_of_mem_places (h : place ∈ places pattern cs) : 1 ≤ place := by
  obtain ⟨before, _, _, rfl⟩ := h
  exact Nat.le_add_left 1 before.length

theorem mem_places_nil_iff : place ∈ places pattern [] ↔ pattern = [] ∧ place = 1 := by
  constructor
  · rintro ⟨before, after, heq, rfl⟩
    obtain ⟨rfl, rfl, -⟩ : before = [] ∧ pattern = [] ∧ after = [] := by simpa using heq.symm
    exact ⟨rfl, rfl⟩
  · rintro ⟨rfl, rfl⟩
    exact ⟨[], [], rfl, rfl⟩

/-- A pattern stands at the beginning, or where it stands in the rest behind the first character. -/
theorem mem_places_cons_iff {c : Char} :
    place ∈ places pattern (c :: cs) ↔
      place = 1 ∧ pattern <+: c :: cs ∨ ∃ rest ∈ places pattern cs, place = rest + 1 := by
  constructor
  · rintro ⟨before, after, heq, rfl⟩
    cases before with
    | nil => exact .inl ⟨rfl, after, heq.symm⟩
    | cons d before =>
      exact .inr ⟨before.length + 1, ⟨before, after, (List.cons.inj heq).2, rfl⟩, rfl⟩
  · rintro (⟨rfl, after, heq⟩ | ⟨_, ⟨before, after, rfl, rfl⟩, rfl⟩)
    · exact ⟨[], after, heq.symm, rfl⟩
    · exact ⟨c :: before, after, rfl, rfl⟩

theorem nonempty_places_iff : (places pattern cs).Nonempty ↔ pattern <:+: cs := by
  constructor
  · rintro ⟨_, before, after, rfl, _⟩
    exact ⟨before, after, rfl⟩
  · rintro ⟨before, after, rfl⟩
    exact ⟨_, before, after, rfl, rfl⟩

/-- In the rest of a text behind its first characters, a pattern stands where it stands in the text,
less the places that were dropped. -/
theorem mem_places_drop_iff {start : Nat} (hstart : start ≤ cs.length) (hplace : 1 ≤ place) :
    place ∈ places pattern (cs.drop start) ↔ start + place ∈ places pattern cs := by
  constructor
  · rintro ⟨before, after, heq, rfl⟩
    refine ⟨cs.take start ++ before, after, ?_, ?_⟩
    · rw [List.append_assoc, List.append_assoc, ← List.append_assoc before, ← heq,
        List.take_append_drop]
    · rw [List.length_append, List.length_take_of_le hstart]
      omega
  · rintro ⟨before, after, rfl, hlength⟩
    refine ⟨before.drop start, after, ?_, ?_⟩
    · rw [List.append_assoc, List.drop_append_of_le_length (by omega), List.append_assoc]
    · rw [List.length_drop]
      omega

/-! The first and the last place -/

theorem not_mem_places_of_find? (h : find? pattern cs = none) : place ∉ places pattern cs := by
  intro hplace
  have hinfix := nonempty_places_iff.mp ⟨place, hplace⟩
  rw [← occursIn_iff_infix, occursIn, h] at hinfix
  exact Bool.noConfusion hinfix

theorem isLeast_of_find? (h : find? pattern cs = some n) : IsLeast (places pattern cs) (n + 1) := by
  induction cs generalizing n with
  | nil =>
    rw [find?] at h
    split_ifs at h with hpattern
    cases h
    exact ⟨mem_places_nil_iff.mpr ⟨List.isEmpty_iff.mp hpattern, rfl⟩,
      fun _ ↦ one_le_of_mem_places⟩
  | cons c cs ih =>
    rw [find?] at h
    split_ifs at h with hfront
    · cases h
      exact ⟨mem_places_cons_iff.mpr (.inl ⟨rfl, List.isPrefixOf_iff_prefix.mp hfront⟩),
        fun _ ↦ one_le_of_mem_places⟩
    · obtain ⟨rest, hrest, rfl⟩ := Option.map_eq_some_iff.mp h
      obtain ⟨hmem, hleast⟩ := ih hrest
      refine ⟨mem_places_cons_iff.mpr (.inr ⟨_, hmem, rfl⟩), fun place hplace ↦ ?_⟩
      rcases mem_places_cons_iff.mp hplace with ⟨-, hprefix⟩ | ⟨other, hother, rfl⟩
      · exact absurd (List.isPrefixOf_iff_prefix.mpr hprefix) hfront
      · exact Nat.succ_le_succ (hleast hother)

theorem not_mem_places_of_findLast? (h : findLast? pattern cs = none) :
    place ∉ places pattern cs := by
  induction cs generalizing place with
  | nil =>
    rw [findLast?] at h
    split_ifs at h with hpattern
    intro hplace
    exact hpattern (List.isEmpty_iff.mpr (mem_places_nil_iff.mp hplace).1)
  | cons c cs ih =>
    rw [findLast?] at h
    cases hrest : findLast? pattern cs with
    | some rest =>
      rw [hrest] at h
      exact nomatch h
    | none =>
      rw [hrest] at h
      dsimp only at h
      split_ifs at h with hfront
      intro hplace
      rcases mem_places_cons_iff.mp hplace with ⟨-, hprefix⟩ | ⟨other, hother, -⟩
      · exact hfront (List.isPrefixOf_iff_prefix.mpr hprefix)
      · exact ih hrest hother

theorem isGreatest_of_findLast? (h : findLast? pattern cs = some n) :
    IsGreatest (places pattern cs) (n + 1) := by
  induction cs generalizing n with
  | nil =>
    rw [findLast?] at h
    split_ifs at h with hpattern
    cases h
    exact ⟨mem_places_nil_iff.mpr ⟨List.isEmpty_iff.mp hpattern, rfl⟩,
      fun place hplace ↦ Nat.le_of_eq (mem_places_nil_iff.mp hplace).2⟩
  | cons c cs ih =>
    rw [findLast?] at h
    cases hrest : findLast? pattern cs with
    | some rest =>
      rw [hrest] at h
      cases h
      obtain ⟨hmem, hgreatest⟩ := ih hrest
      refine ⟨mem_places_cons_iff.mpr (.inr ⟨_, hmem, rfl⟩), fun place hplace ↦ ?_⟩
      rcases mem_places_cons_iff.mp hplace with ⟨rfl, -⟩ | ⟨other, hother, rfl⟩
      · exact Nat.le_add_left 1 _
      · exact Nat.succ_le_succ (hgreatest hother)
    | none =>
      rw [hrest] at h
      dsimp only at h
      split_ifs at h with hfront
      cases h
      refine ⟨mem_places_cons_iff.mpr (.inl ⟨rfl, List.isPrefixOf_iff_prefix.mp hfront⟩),
        fun place hplace ↦ ?_⟩
      rcases mem_places_cons_iff.mp hplace with ⟨rfl, -⟩ | ⟨other, hother, -⟩
      · exact Nat.le_refl 1
      · exact absurd hother (not_mem_places_of_findLast? hrest)

theorem exists_find? (h : pattern <:+: cs) : ∃ n, find? pattern cs = some n := by
  rw [← occursIn_iff_infix] at h
  exact Option.isSome_iff_exists.mp h

theorem exists_findLast? (h : pattern <:+: cs) : ∃ n, findLast? pattern cs = some n := by
  refine Option.ne_none_iff_exists'.mp fun hnone ↦ ?_
  obtain ⟨place, hplace⟩ := nonempty_places_iff.mpr h
  exact not_mem_places_of_findLast? hnone hplace

/-- The first place is the last one exactly if there is no other. -/
theorem first_eq_last_iff {first last : Nat} (hfirst : IsLeast (places pattern cs) first)
    (hlast : IsGreatest (places pattern cs) last) :
    first = last ↔ ∃! place, place ∈ places pattern cs := by
  constructor
  · rintro rfl
    exact ⟨first, hfirst.1, fun other hother ↦ Nat.le_antisymm (hlast.2 hother) (hfirst.2 hother)⟩
  · intro hone
    exact hone.unique hfirst.1 hlast.1

/-! Searching from a place on -/

theorem le_length_of_mem_places (hpattern : pattern ≠ []) (h : place ∈ places pattern cs) :
    place ≤ cs.length := by
  obtain ⟨before, after, rfl, rfl⟩ := h
  have hlength := List.length_pos_iff.mpr hpattern
  rw [List.length_append, List.length_append]
  omega

/-- What a search from a place on should give: the first place from there on, and zero if there is
none. -/
def IsFirstFrom (start : Int) (pattern cs : List Char) (n : Nat) : Prop :=
  IsLeast {place ∈ places pattern cs | start ≤ place} n ∨
    n = 0 ∧ ∀ place ∈ places pattern cs, place < start

/-- The pattern occurs, but only before a place that is in the text or right behind it. -/
structure OnlyBefore (start : Int) (pattern cs : List Char) : Prop where
  occurs : pattern <:+: cs
  before : ∀ place ∈ places pattern cs, place < start
  inside : start ≤ cs.length + 1

section

variable {start : Nat} (hstart : start ≤ cs.length)
include hstart

theorem isLeast_of_find?_drop (h : find? pattern (cs.drop start) = some n) :
    IsLeast {place ∈ places pattern cs | (start : Int) + 1 ≤ place} (start + (n + 1)) := by
  obtain ⟨hmem, hleast⟩ := isLeast_of_find? h
  constructor
  · refine ⟨(mem_places_drop_iff hstart (Nat.le_add_left 1 n)).mp hmem, ?_⟩
    omega
  · rintro place ⟨hplace, hfrom⟩
    obtain ⟨rest, rfl⟩ : ∃ rest, place = start + rest := Nat.exists_eq_add_of_le (by omega)
    have hrest := hleast ((mem_places_drop_iff hstart (by omega)).mpr hplace)
    exact Nat.add_le_add_left hrest start

theorem before_of_find?_drop (h : find? pattern (cs.drop start) = none) :
    ∀ place ∈ places pattern cs, (place : Int) < (start : Int) + 1 := by
  intro place hplace
  by_contra hfrom
  obtain ⟨rest, rfl⟩ : ∃ rest, place = start + rest := Nat.exists_eq_add_of_le (by omega)
  exact not_mem_places_of_find? h ((mem_places_drop_iff hstart (by omega)).mpr hplace)

end

end Text

/-! Calls -/

namespace Library

open Text

/-- The place at which a search finds a pattern in what is left of a text. -/
def findEnd? (last : Bool) (pattern cs : List Char) : Option Nat :=
  if last then findLast? pattern cs else Text.find? pattern cs

theorem findEnd?_first (pattern cs : List Char) :
    findEnd? false pattern cs = Text.find? pattern cs :=
  rfl

theorem findEnd?_last (pattern cs : List Char) : findEnd? true pattern cs = findLast? pattern cs :=
  rfl

variable {s p : String}

/-- Whether the pattern occurs is asked of the whole text, and where it does of the rest. -/
theorem search_texts (last : Bool) (h : Heap) {args : List Value} {start : Nat}
    (hargs : searchArguments args = .ok (start, .text s, .text p)) (hp : p ≠ "") :
    search last h args =
      if start ≤ s.length ∧ p.toList <:+: s.toList then
        (findEnd? last p.toList (s.toList.drop start)).elim (.error .wrongValue)
          fun i ↦ .ok (.int (start + (i + 1) : Nat))
      else .ok (.int 0) := by
  obtain ⟨k, hk⟩ : ∃ k, p.length = k + 1 := by
    refine Nat.exists_eq_succ_of_ne_zero fun hzero ↦ hp ?_
    rwa [← String.length_eq_zero_iff]
  have hoccursIn := occursIn_iff_infix p.toList s.toList
  unfold search
  rw [hargs]
  dsimp only [bind, Except.bind, Heap.opened, Value.length?]
  rw [hk]
  cases hs : s.length with
  | zero =>
    have habsent : ¬p.toList <:+: s.toList := by
      rw [String.length_eq_zero_iff.mp hs, String.toList_empty, List.infix_nil,
        String.toList_eq_nil_iff]
      exact hp
    exact (if_neg fun hboth ↦ habsent hboth.2).symm
  | succ n =>
    by_cases hstart : start ≤ n + 1
    · have hinside : ¬start > n + 1 := Nat.not_lt.mpr hstart
      by_cases hoccurs : p.toList <:+: s.toList
      · have hfound := hoccursIn.mpr hoccurs
        simp only [hstart, hinside, hoccurs, hfound, Bool.not_true, Bool.false_eq_true, and_self,
          if_true, if_false, findEnd?]
        cases (if last then findLast? p.toList (s.toList.drop start)
          else Text.find? p.toList (s.toList.drop start)) with
        | none => rfl
        | some i =>
          have hplace : (i : Int) + start + 1 = ((start + (i + 1) : Nat) : Int) := by omega
          exact congrArg (fun n ↦ Except.ok (Value.int n)) hplace
      · have habsent : occursIn p.toList s.toList = false :=
          Bool.eq_false_of_not_eq_true (mt hoccursIn.mp hoccurs)
        simp only [hinside, hoccurs, habsent, Bool.not_false, and_false, if_true, if_false]
        rfl
    · have hbehind : start > n + 1 := Nat.lt_of_not_le hstart
      simp only [hstart, hbehind, false_and, if_true, if_false]
      rfl

/-- The place to start from counts from one. -/
theorem searchArguments_from (start : Nat) (s p : String) :
    searchArguments [.int (start + 1), .text s, .text p] = .ok (start, .text s, .text p) := by
  have hplace : ((start : Int) + 1 - 1).toNat = start := by omega
  have hfrom : searchArguments [.int (start + 1), .text s, .text p] =
      .ok (((start : Int) + 1 - 1).toNat, .text s, .text p) := rfl
  rw [hfrom, hplace]

end Library

namespace Routine

open Text

variable (evaluate : Evaluator) (m : Machine)

theorem call_search {r : Routine} {last : Bool} {args : List Value} {start : Nat} {s p : String}
    (hr : Library.answer? r m.heap args = some (Library.search last m.heap args))
    (hargs : Library.searchArguments args = .ok (start, .text s, .text p)) (hp : p ≠ "") :
    r.call evaluate (some args) m =
      if start ≤ s.length ∧ p.toList <:+: s.toList then
        (Library.findEnd? last p.toList (s.toList.drop start)).elim (.error .wrongValue m)
          fun i ↦ .ok (.int (start + (i + 1) : Nat)) m
      else .ok (.int 0) m := by
  rw [call_of_answer evaluate m hr, Library.search_texts last m.heap hargs hp]
  split_ifs
  · cases Library.findEnd? last p.toList (s.toList.drop start) <;> rfl
  · rfl

/-- Without a place to start from, the two searches give the first and the last place of a text in
another, which may overlap, and both give zero exactly if there is none. They agree on a text that
occurs exactly if it does so once. -/
theorem searches_give_first_and_last (s : String) {p : String} (hp : p ≠ "") :
    ∃ first last : Nat,
      Routine.call evaluate .inStr (some [.text s, .text p]) m = .ok (.int first) m ∧
        Routine.call evaluate .inStrRev (some [.text s, .text p]) m = .ok (.int last) m ∧
        (first = 0 ↔ ¬p.toList <:+: s.toList) ∧ (last = 0 ↔ ¬p.toList <:+: s.toList) ∧
        (p.toList <:+: s.toList →
          IsLeast (places p.toList s.toList) first ∧ IsGreatest (places p.toList s.toList) last ∧
            (first = last ↔ ∃! place, place ∈ places p.toList s.toList)) ∧
        first ≤ last := by
  have hargs : Library.searchArguments [.text s, .text p] = .ok (0, .text s, .text p) := rfl
  have hfront := call_search evaluate m (r := .inStr) rfl hargs hp
  have hback := call_search evaluate m (r := .inStrRev) rfl hargs hp
  rw [List.drop_zero] at hfront hback
  by_cases hoccurs : p.toList <:+: s.toList
  · obtain ⟨i, hi⟩ := exists_find? hoccurs
    obtain ⟨j, hj⟩ := exists_findLast? hoccurs
    have hfirst := isLeast_of_find? hi
    have hlast := isGreatest_of_findLast? hj
    rw [if_pos ⟨Nat.zero_le _, hoccurs⟩, Library.findEnd?_first, hi, Option.elim_some,
      Nat.zero_add] at hfront
    rw [if_pos ⟨Nat.zero_le _, hoccurs⟩, Library.findEnd?_last, hj, Option.elim_some,
      Nat.zero_add] at hback
    exact ⟨i + 1, j + 1, hfront, hback,
      iff_of_false (Nat.succ_ne_zero i) (not_not_intro hoccurs),
      iff_of_false (Nat.succ_ne_zero j) (not_not_intro hoccurs),
      fun _ ↦ ⟨hfirst, hlast, first_eq_last_iff hfirst hlast⟩, hlast.2 hfirst.1⟩
  · rw [if_neg fun hboth ↦ hoccurs hboth.2] at hfront hback
    exact ⟨0, 0, hfront, hback, iff_of_true rfl hoccurs, iff_of_true rfl hoccurs,
      fun hinfix ↦ absurd hinfix hoccurs, Nat.le_refl 0⟩

theorem searches_give_first_and_last_banana :
    "ana" ≠ "" ∧
      ∃ first last : Nat,
        Routine.call Semantics.run .inStr (some [.text "banana", .text "ana"]) {} =
            .ok (.int first) {} ∧
          Routine.call Semantics.run .inStrRev (some [.text "banana", .text "ana"]) {} =
            .ok (.int last) {} ∧
          first = 2 ∧ last = 4 := by
  have hp : "ana" ≠ "" := by decide
  obtain ⟨first, last, hfront, hback, -, -, hends, -⟩ :=
    searches_give_first_and_last Semantics.run {} "banana" hp
  have hfirst : Text.find? "ana".toList "banana".toList = some 1 := by decide
  have hlast : findLast? "ana".toList "banana".toList = some 3 := by decide
  obtain ⟨hleast, hgreatest, -⟩ := hends ⟨['b'], ['n', 'a'], rfl⟩
  exact ⟨hp, first, last, hfront, hback, hleast.unique (isLeast_of_find? hfirst),
    hgreatest.unique (isGreatest_of_findLast? hlast)⟩

/-- With a place to start from, the search gives the first place from there on, or zero if there is
none, unless the pattern occurs but only before that place, and the place is in the text or right
behind it. In this case, and in no other, the search fails. -/
theorem search_from_place_iff (s : String) {p : String} (hp : p ≠ "") {start : Int}
    (hstart : 1 ≤ start) :
    ((∃ n : Nat, Routine.call evaluate .inStr (some [.int start, .text s, .text p]) m =
        .ok (.int n) m ∧ IsFirstFrom start p.toList s.toList n) ↔
      ¬OnlyBefore start p.toList s.toList) ∧
    (OnlyBefore start p.toList s.toList →
      Routine.call evaluate .inStr (some [.int start, .text s, .text p]) m =
        .error .wrongValue m) := by
  obtain ⟨k, rfl⟩ : ∃ k : Nat, start = k + 1 := ⟨(start - 1).toNat, by omega⟩
  have hcall := call_search evaluate m (r := .inStr) rfl (Library.searchArguments_from k s p) hp
  by_cases hinside : k ≤ s.length ∧ p.toList <:+: s.toList
  · have hk : k ≤ s.toList.length := String.length_toList ▸ hinside.1
    rw [if_pos hinside, Library.findEnd?_first] at hcall
    cases hfind : Text.find? p.toList (s.toList.drop k) with
    | some i =>
      rw [hfind, Option.elim_some] at hcall
      have hleast := isLeast_of_find?_drop hk hfind
      have hnot : ¬OnlyBefore (k + 1) p.toList s.toList := by
        intro honly
        have hbefore := honly.before _ hleast.1.1
        have hfrom := hleast.1.2
        omega
      exact ⟨iff_of_true ⟨_, hcall, .inl hleast⟩ hnot, fun honly ↦ absurd honly hnot⟩
    | none =>
      rw [hfind, Option.elim_none] at hcall
      have honly : OnlyBefore (k + 1) p.toList s.toList :=
        ⟨hinside.2, before_of_find?_drop hk hfind, by omega⟩
      refine ⟨iff_of_false ?_ (not_not_intro honly), fun _ ↦ hcall⟩
      rintro ⟨n, hanswer, -⟩
      exact nomatch hcall.symm.trans hanswer
  · rw [if_neg hinside] at hcall
    have hnot : ¬OnlyBefore (k + 1) p.toList s.toList := by
      intro honly
      have hend := honly.inside
      rw [String.length_toList] at hend
      exact hinside ⟨by omega, honly.occurs⟩
    refine ⟨iff_of_true ⟨0, hcall, .inr ⟨rfl, fun place hplace ↦ ?_⟩⟩ hnot,
      fun honly ↦ absurd honly hnot⟩
    by_contra hfrom
    have hlength := le_length_of_mem_places (mt String.toList_eq_nil_iff.mp hp) hplace
    rw [String.length_toList] at hlength
    exact hinside ⟨by omega, nonempty_places_iff.mp ⟨place, hplace⟩⟩

theorem search_from_place_iff_later :
    "ab" ≠ "" ∧ (1 : Int) ≤ 3 ∧
      ∃ n : Nat, Routine.call Semantics.run .inStr
          (some [.int 3, .text "abcab", .text "ab"]) {} = .ok (.int n) {} ∧
        IsFirstFrom 3 "ab".toList "abcab".toList n := by
  have hp : "ab" ≠ "" := by decide
  have hlast : findLast? "ab".toList "abcab".toList = some 3 := by decide
  have hnot : ¬OnlyBefore 3 "ab".toList "abcab".toList := by
    intro honly
    exact absurd (honly.before _ (isGreatest_of_findLast? hlast).1) (by decide)
  exact ⟨hp, by decide, (search_from_place_iff Semantics.run {} "abcab" hp (by decide)).1.mpr hnot⟩

/-- A letter that occurs, but before the place where the search starts, makes it fail. -/
theorem earlier_occurrence_refused :
    IsFirstFrom 2 "a".toList "ab".toList 0 ∧
      Routine.call Semantics.run .inStr (some [.int 2, .text "ab", .text "a"]) {} =
        .error .wrongValue {} := by
  have hlast : findLast? "a".toList "ab".toList = some 0 := by decide
  refine ⟨.inr ⟨rfl, fun place hplace ↦ ?_⟩, rfl⟩
  have hgreatest := (isGreatest_of_findLast? hlast).2 hplace
  omega

end Routine

end VbaTrace
