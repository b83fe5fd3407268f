import VbaTrace.Proofs.Conditions
import VbaTrace.Proofs.Variables

/-!
Identifiers and reserved words. A keyword is read only where no character of a name touches it. So in
a word that could be a name (`NameWord`) it is the whole word, in some case, or it is not there at all
(`NameWord.ends_kw`), and the exclusion of the reserved words leaves every word that merely
begins like one of them, or that one of them begins with (`NameWord.readAll_identifier`).

This holds of the reserved words as they are spelled. Four of them are spelled with a blank at the
end, which no name has in it, so that these words are identifiers too
(`NameWord.lower_mem_reservedWords_iff`).
-/

set_option autoImplicit false

namespace VbaTrace

namespace Text

theorem toLower_toUpper {c : Char} (hc : c.toNat < 128) : c.toUpper.toLower = c.toLower :=
  of_ascii (P := fun c ↦ c.toUpper.toLower = c.toLower) (by decide +kernel) hc

theorem toUpper_toLower {c : Char} (hc : c.toNat < 128) : c.toLower.toUpper = c.toUpper :=
  of_ascii (P := fun c ↦ c.toLower.toUpper = c.toUpper) (by decide +kernel) hc

/-- Texts that are the same in upper case are the same in lower case. -/
theorem map_toUpper_eq_iff {s t : String} (hs : isAscii s = true) (ht : isAscii t = true) :
    s.toList.map Char.toUpper = t.toList.map Char.toUpper ↔ lower s = lower t := by
  have hlower {u : String} (hu : isAscii u = true) :
      (u.toList.map Char.toUpper).map Char.toLower = (lower u).toList := by
    rw [toList_lower_of_isAscii hu, List.map_map]
    exact List.map_congr_left fun c hc ↦ toLower_toUpper (isAscii_iff.mp hu c hc)
  have hupper {u : String} (hu : isAscii u = true) :
      (lower u).toList.map Char.toUpper = u.toList.map Char.toUpper := by
    rw [toList_lower_of_isAscii hu, List.map_map]
    exact List.map_congr_left fun c hc ↦ toUpper_toLower (isAscii_iff.mp hu c hc)
  constructor
  · intro h
    rw [← String.toList_inj, ← hlower hs, h, hlower ht]
  · intro h
    rw [← hupper hs, h, hupper ht]

end Text

namespace Grammar

open Cursor (between)

/-! Keywords in a word -/

/-- What a word matches in any case is that word, in some case. -/
theorem caselessMatch_eq_some {word : List Char} {c d : Cursor} (hascii : isAscii c.rest = true)
    (h : caselessMatch word c = some d) :
    ∃ w, c.rest = w ++ d.rest ∧ w.map Char.toUpper = word.map Char.toUpper := by
  induction word generalizing c with
  | nil =>
    cases h
    exact ⟨[], rfl, rfl⟩
  | cons y word ih =>
    rw [caselessMatch] at h
    cases hrest : c.rest with
    | nil =>
      rw [hrest] at h
      cases h
    | cons x xs =>
      rw [hrest, isAscii, List.all_cons, Bool.and_eq_true, decide_eq_true_eq] at hascii
      obtain ⟨hsmall, hmore⟩ := hascii
      simp only [hrest, if_pos hsmall] at h
      split_ifs at h with hx
      obtain ⟨w, hw, hcase⟩ := ih (c := ⟨c.offset + 1, some x, xs⟩) hmore h
      refine ⟨x :: w, congrArg (x :: ·) hw, ?_⟩
      rw [List.map_cons, List.map_cons, hcase, eq_of_beq hx]

/-- A letter, digit or underscore. -/
def isNameChar (c : Char) : Bool := c.isAlphanum || c == '_'

theorem toNat_lt_of_isNameChar {c : Char} (h : isNameChar c = true) : c.toNat < 128 := by
  have hbelow {top : UInt32} (htop : top.toNat < 128) (hle : c.val ≤ top) : c.toNat < 128 :=
    Nat.lt_of_le_of_lt (UInt32.le_iff_toNat_le.mp hle) htop
  have hsplit : (((c.isUpper || c.isLower) || c.isDigit) || c == '_') = true := h
  simp only [Bool.or_eq_true, beq_iff_eq] at hsplit
  rcases hsplit with ((hupper | hlower) | hdigit) | rfl
  · have hrange : 'A'.val ≤ c.val ∧ c.val ≤ 'Z'.val := of_decide_eq_true hupper
    exact hbelow (by decide) hrange.2
  · have hlast : decide (c.val ≤ 'z'.val) = true := (Bool.and_eq_true_iff.mp hlower).2
    exact hbelow (by decide) (of_decide_eq_true hlast)
  · exact Text.toNat_lt_of_isDigit hdigit
  · decide

theorem of_isNameChar {p : Char → Bool}
    (h : ∀ n < 128, isNameChar (Char.ofNat n) = true → p (Char.ofNat n) = true) {c : Char}
    (hc : isNameChar c = true) : p c = true :=
  Text.of_ascii (P := fun c ↦ isNameChar c = true → p c = true) h (toNat_lt_of_isNameChar hc) hc

/-! Reserved words -/

/-- The text is one of the reserved words in some case, the blanks around these left aside. -/
def IsReserved (s : String) : Prop :=
  ∃ e ∈ Pattern.reservedWords, Text.lower (Text.trimmed e) = Text.lower s

/-- The reserved words that are spelled with a blank. -/
def spacedWords : List String := ["ByVal ", "VB_Ext_KEY ", "VB_Invoke_Property ", "VB_VarProcData "]

/-- Every other reserved word could be a name, and none of them is one of these without its blank. -/
theorem spaced_or_spelled {e : String} (he : e ∈ Pattern.reservedWords) :
    e ∈ spacedWords ∨ (e.toList.all isNameChar = true ∧
      Text.lower e ∉ spacedWords.map fun s ↦ Text.lower (Text.trimmed s)) := by
  have hall : (Pattern.reservedWords.all fun e ↦ spacedWords.contains e ||
      (e.toList.all isNameChar &&
        !(spacedWords.map fun s ↦ Text.lower (Text.trimmed s)).contains (Text.lower e))) = true := by
    decide +kernel
  simpa only [Bool.or_eq_true, Bool.and_eq_true, List.contains_iff_mem, Bool.not_eq_true',
    Bool.eq_false_iff, ne_eq] using List.all_eq_true.mp hall e he

theorem isAscii_of_isNameChar {s : String} (h : s.toList.all isNameChar = true) :
    Text.isAscii s = true :=
  List.all_eq_true.mpr fun c hc ↦
    decide_eq_true (toNat_lt_of_isNameChar (List.all_eq_true.mp h c hc))

theorem isAscii_of_reserved {e : String} (he : e ∈ Pattern.reservedWords) :
    Text.isAscii e = true := by
  have hspaced : ∀ s ∈ spacedWords, Text.isAscii s = true := by decide +kernel
  rcases spaced_or_spelled he with hmem | ⟨hname, -⟩
  · exact hspaced e hmem
  · exact isAscii_of_isNameChar hname

/-- A name has no blanks around it. -/
theorem trimmed_of_isNameChar {s : String} (h : s.toList.all isNameChar = true) :
    Text.trimmed s = s := by
  have hblank {c : Char} (hc : c ∈ s.toList) : Text.isBlank c = false := by
    have hnot : (!Text.isBlank c) = true :=
      of_isNameChar (p := fun c ↦ !Text.isBlank c) (by decide +kernel) (List.all_eq_true.mp h c hc)
    exact Bool.not_eq_true' _ ▸ hnot
  have hhead : s.toList.head?.any Text.isBlank = false :=
    (Option.any_eq_false _ _).mpr fun _ hc ↦ hblank (List.mem_of_head? hc)
  have hlast : s.toList.getLast?.any Text.isBlank = false :=
    (Option.any_eq_false _ _).mpr fun _ hc ↦ hblank (List.mem_of_getLast? hc)
  rw [Text.trimmed, Text.trim, Text.trimRight, Text.trimLeft, Text.dropWhile_of_ends hhead hlast,
    String.ofList_toList]

/-! Words that could be names -/

/-- A word that could be a name: a letter, and behind it letters, digits and underscores. -/
structure NameWord where
  text : String
  startsWithLetter : text.toList.head?.any Char.isAlpha = true
  isName : text.toList.all isNameChar = true

namespace NameWord

variable (w : NameWord)

theorem isNameChar_of_mem {c : Char} (hc : c ∈ w.text.toList) : isNameChar c = true :=
  List.all_eq_true.mp w.isName c hc

theorem isAscii_text : isAscii w.text.toList = true :=
  isAscii_of_isNameChar w.isName

theorem touchesKeyword_of_mem {c : Char} (hc : c ∈ w.text.toList) : touchesKeyword c = true :=
  of_isNameChar (by decide +kernel) (w.isNameChar_of_mem hc)

theorem exists_cons : ∃ x xs, w.text.toList = x :: xs ∧ x.isAlpha = true := by
  obtain ⟨x, hhead, hx⟩ := (Option.any_eq_true _ _).mp w.startsWithLetter
  obtain ⟨xs, hxs⟩ := List.head?_eq_some_iff.mp hhead
  exact ⟨x, xs, hxs, hx⟩

theorem startsVisibly_text : startsVisibly w.text.toList = true := by
  obtain ⟨x, xs, hcons, -⟩ := w.exists_cons
  have hx := w.isNameChar_of_mem (hcons ▸ List.mem_cons_self)
  rw [startsVisibly, hcons]
  exact of_isNameChar (p := isVisible) (by decide +kernel) hx

theorem not_mem_text {c : Char} (hc : isNameChar c = false) : c ∉ w.text.toList :=
  fun hmem ↦ Bool.eq_false_iff.mp hc (w.isNameChar_of_mem hmem)

/-- The cursor before the word. -/
theorem at_start : (between [] w.text.toList).At w.text.toList.head? := by
  have hat := at_of_startsVisibly w.startsVisibly_text [] []
  rwa [List.append_nil] at hat

/-- A keyword at the start of the word is the whole word. -/
theorem scan_keyword_of_ne {word : List Char}
    (hne : w.text.toList.map Char.toUpper ≠ word.map Char.toUpper) :
    (Lexeme.keyword word).scan (between [] w.text.toList) = none := by
  rw [Lexeme.scan]
  cases hmatch : caselessMatch word (between [] w.text.toList) with
  | none => rfl
  | some d =>
    obtain ⟨front, htext, hcase⟩ := caselessMatch_eq_some w.isAscii_text hmatch
    rw [Cursor.between_rest] at htext
    have htouches : d.rest.head?.any touchesKeyword = true := by
      cases hrest : d.rest with
      | nil =>
        rw [hrest, List.append_nil] at htext
        exact absurd (htext ▸ hcase) hne
      | cons x xs =>
        have hx : x ∈ w.text.toList := by
          rw [htext, hrest]
          exact List.mem_append_right front List.mem_cons_self
        exact w.touchesKeyword_of_mem hx
    exact if_pos (by rw [htouches, Bool.or_true])

/-- Keywords are told apart from the word by its letters alone. -/
theorem ends_kw {e : String} (he : Text.isAscii e = true) (depth : Nat) (mode : Mode) :
    (Pattern.kw e).Ends depth true mode (between [] w.text.toList)
      (if Text.lower e = Text.lower w.text then
        .matched (between w.text.toList []) (.one (.text e)) else .failed) := by
  have hcase := Text.map_toUpper_eq_iff (s := w.text) w.isAscii_text he
  split_ifs with hsame
  · have hscan : (Lexeme.keyword e.toList).scan (between [] (w.text.toList ++ [])) =
        some (between ([] ++ w.text.toList) [], some (String.ofList e.toList)) :=
      Cursor.scan_keyword w.isAscii_text (hcase.mpr hsame.symm) rfl rfl
    rw [List.append_nil, String.ofList_toList] at hscan
    exact .lexeme (w.at_start.enter _ _ _) hscan depth
  · have hne := fun heq ↦ hsame (hcase.mp heq).symm
    exact .lexeme_of_none (w.at_start.enter _ _ _) (w.scan_keyword_of_ne hne) depth

/-- One of several keywords is read if the word is one of them. -/
theorem exists_ends_keywords {es : List String} (hes : ∀ e ∈ es, Text.isAscii e = true)
    (h : Text.lower w.text ∈ es.map Text.lower) (depth : Nat) (mode : Mode) :
    ∃ t, (Pattern.keywords es).Ends depth true mode (between [] w.text.toList)
      (.matched (between w.text.toList []) t) := by
  obtain ⟨e, he, hlower⟩ := List.mem_map.mp h
  have hfound : (es.find? fun e ↦ Text.lower e = Text.lower w.text).isSome = true :=
    List.find?_isSome.mpr ⟨e, he, decide_eq_true hlower⟩
  obtain ⟨s, hs⟩ := Option.isSome_iff_exists.mp hfound
  obtain ⟨hsame, earlier, later, rfl, hearlier⟩ := List.find?_eq_some_iff_append.mp hs
  have hread := w.ends_kw (hes s (by simp)) depth mode
  rw [if_pos (of_decide_eq_true hsame)] at hread
  refine ⟨_, ends_keywords (fun u hu ↦ ?_) hread later⟩
  have hrefused := w.ends_kw (hes u (List.mem_append_left _ hu)) depth mode
  rwa [if_neg (by simpa using hearlier u hu)] at hrefused

theorem ends_keywords_of_not_mem {es : List String} (hes : ∀ e ∈ es, Text.isAscii e = true)
    (h : Text.lower w.text ∉ es.map Text.lower) (depth : Nat) (mode : Mode) :
    (Pattern.keywords es).Ends depth true mode (between [] w.text.toList) .failed := by
  refine ends_keywords_of_failed fun e he ↦ ?_
  have hrefused := w.ends_kw (hes e he) depth mode
  have hne : Text.lower e ≠ Text.lower w.text := fun heq ↦ h (heq ▸ List.mem_map_of_mem he)
  rwa [if_neg hne] at hrefused

/-! Identifiers -/

theorem scan_word : (Lexeme.word .letters .identifierChars).scan (between [] w.text.toList) =
    some (between w.text.toList [], some w.text) := by
  obtain ⟨x, xs, hcons, hx⟩ := w.exists_cons
  have hmore : ∀ y ∈ xs, CharSet.identifierChars.holds y = true := fun y hy ↦
    w.isNameChar_of_mem (hcons ▸ List.mem_cons_of_mem x hy)
  have hscan : (Lexeme.word .letters .identifierChars).scan (between [] (x :: xs)) =
      some ((between [x] xs).skipWhile CharSet.identifierChars.holds,
        some ((between [] (x :: xs)).textTo
          ((between [x] xs).skipWhile CharSet.identifierChars.holds))) := if_pos hx
  have hskip : (between [x] (xs ++ [])).skipWhile CharSet.identifierChars.holds =
      between ([x] ++ xs) [] := Cursor.skipWhile_between [x] hmore rfl
  have htext := Cursor.textTo_between [] (x :: xs) []
  rw [List.append_nil] at hskip htext
  rw [List.nil_append] at htext
  rw [hcons, hscan, hskip, List.singleton_append, htext, ← hcons, String.ofList_toList]

/-- The word is excluded if it is a reserved word as that is spelled. -/
theorem ends_absent (depth : Nat) :
    (Pattern.absent (.ref .reservedIdentifier)).Ends (depth + 1) false .normal
      (between [] w.text.toList)
      (if Text.lower w.text ∈ Pattern.reservedWords.map Text.lower then .failed
        else .matched (between [] w.text.toList) .empty) := by
  have henter := w.at_start.enter (.rule .reservedIdentifier) true Mode.normal.look
  split_ifs with hmem
  · obtain ⟨t, hread⟩ :=
      w.exists_ends_keywords (fun _ ↦ isAscii_of_reserved) hmem depth Mode.normal.look
    exact .absent_of_matched (.rule henter hread)
  · have hrefused :=
      w.ends_keywords_of_not_mem (fun _ ↦ isAscii_of_reserved) hmem depth Mode.normal.look
    exact .absent_of_failed (.rule henter hrefused)

theorem ends_identifier :
    (Pattern.ref .identifier).Ends 2 true .normal (between [] w.text.toList)
      (if Text.lower w.text ∈ Pattern.reservedWords.map Text.lower then .failed
        else .matched (between w.text.toList []) (.one (.text w.text))) := by
  have habsent := w.ends_absent 0
  have hskip := w.at_start.skipped false (Pattern.absent (.ref .reservedIdentifier)).lead .normal
  refine .rule (w.at_start.enter _ _ _) ?_
  split_ifs with hmem
  · rw [if_pos hmem] at habsent
    exact .build rfl (.seq_of_failed hskip habsent) rfl
  · rw [if_neg hmem] at habsent
    have hword : Pattern.lexIdentifier.Ends 1 true .normal _ _ :=
      .lexeme (w.at_start.enter _ _ _) w.scan_word 1
    exact .build rfl (.seq hskip habsent hword rfl) rfl

theorem readAll_identifier : readAll .identifier w.text =
    if Text.lower w.text ∈ Pattern.reservedWords.map Text.lower then .error (.noMatch none)
    else .ok (.one (.text w.text)) := by
  have htabs : '\t' ∉ w.text.toList := w.not_mem_text (by decide)
  have hdepth : 2 ≤ depthBound w.text.toList.length := by
    rw [depthBound]
    omega
  have hrun := runRule_of_ends htabs w.ends_identifier hdepth
  rw [String.ofList_toList] at hrun
  split_ifs at hrun ⊢ with hmem
  · exact readAll_of_failed rfl hrun
  · exact readAll_of_matched rfl hrun rfl

/-- No text with a space in it is the word in some case. -/
theorem lower_ne_of_space {e : String} (he : Text.isAscii e = true) (hspace : ' ' ∈ e.toList) :
    Text.lower e ≠ Text.lower w.text := by
  intro heq
  have hmem : ' ' ∈ (Text.lower e).toList := by
    rw [Text.toList_lower_of_isAscii he]
    exact List.mem_map.mpr ⟨' ', hspace, by decide⟩
  rw [heq, Text.toList_lower_of_isAscii w.isAscii_text] at hmem
  obtain ⟨c, hc, hlower⟩ := List.mem_map.mp hmem
  have hvisible : isVisible c.toLower = true :=
    of_isNameChar (p := fun c ↦ isVisible c.toLower) (by decide +kernel) (w.isNameChar_of_mem hc)
  rw [hlower] at hvisible
  exact absurd hvisible (by decide)

theorem lower_ne_of_spaced {e : String} (he : e ∈ spacedWords) :
    Text.lower e ≠ Text.lower w.text := by
  have hspaced : ∀ s ∈ spacedWords, Text.isAscii s = true ∧ ' ' ∈ s.toList := by decide +kernel
  exact w.lower_ne_of_space (hspaced e he).1 (hspaced e he).2

/-- As they are spelled, the reserved words leave out the four with a blank. -/
theorem lower_mem_reservedWords_iff :
    Text.lower w.text ∈ Pattern.reservedWords.map Text.lower ↔
      IsReserved w.text ∧ ∀ e ∈ spacedWords, Text.lower (Text.trimmed e) ≠ Text.lower w.text := by
  constructor
  · intro hmem
    obtain ⟨e, he, hlower⟩ := List.mem_map.mp hmem
    rcases spaced_or_spelled he with hspaced | ⟨hname, hother⟩
    · exact absurd hlower (w.lower_ne_of_spaced hspaced)
    · refine ⟨⟨e, he, (trimmed_of_isNameChar hname).symm ▸ hlower⟩, fun s hs heq ↦ hother ?_⟩
      exact List.mem_map.mpr ⟨s, hs, heq.trans hlower.symm⟩
  · rintro ⟨⟨e, he, hlower⟩, hother⟩
    rcases spaced_or_spelled he with hspaced | ⟨hname, -⟩
    · exact absurd hlower (hother e hspaced)
    · rw [trimmed_of_isNameChar hname] at hlower
      exact List.mem_map.mpr ⟨e, he, hlower⟩

end NameWord

/-- A word that could be a name is read by the rule for identifiers, and given as it is, exactly if it
is no reserved word or one of the four that are spelled with a blank. All others are refused. -/
theorem identifier_iff_unreserved (w : NameWord) :
    (readAll .identifier w.text = .ok (.one (.text w.text)) ↔
      ¬IsReserved w.text ∨ ∃ e ∈ spacedWords, Text.lower (Text.trimmed e) = Text.lower w.text) ∧
    (readAll .identifier w.text = .error (.noMatch none) ↔
      IsReserved w.text ∧ ∀ e ∈ spacedWords, Text.lower (Text.trimmed e) ≠ Text.lower w.text) := by
  have hmem := w.lower_mem_reservedWords_iff
  have hfree : (¬IsReserved w.text ∨
      ∃ e ∈ spacedWords, Text.lower (Text.trimmed e) = Text.lower w.text) ↔
      Text.lower w.text ∉ Pattern.reservedWords.map Text.lower := by
    rw [hmem, not_and_or]
    simp only [ne_eq, not_forall, not_not, exists_prop]
  rw [hfree, ← hmem, w.readAll_identifier]
  split_ifs with hreserved
  · exact ⟨iff_of_false nofun (not_not_intro hreserved), iff_of_true rfl hreserved⟩
  · exact ⟨iff_of_true rfl hreserved, iff_of_false nofun hreserved⟩

def byValue : NameWord := ⟨"ByVal", by decide, by decide⟩

/-- The marker of a parameter that is passed by its value is reserved, and is read all the same. -/
theorem byValue_read :
    IsReserved byValue.text ∧
      readAll .identifier byValue.text = .ok (.one (.text byValue.text)) := by
  have hmem : "ByVal " ∈ spacedWords := List.mem_cons_self
  have hreserved : Text.lower (Text.trimmed "ByVal ") = Text.lower byValue.text := by decide +kernel
  refine ⟨⟨"ByVal ", by decide +kernel, hreserved⟩, ?_⟩
  rw [byValue.readAll_identifier]
  exact if_neg fun h ↦ (byValue.lower_mem_reservedWords_iff.mp h).2 _ hmem hreserved

end Grammar

end VbaTrace
