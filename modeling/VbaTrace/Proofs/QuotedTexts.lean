import VbaTrace.Proofs.Ladders

/-!
Quoted texts. The literal of a text (`literalOf`) has a quote before and behind it and every quote in
it written twice. Where a literal ends is found with the doubled quotes in place
(`closingQuote_doubled`), and what it stands for is the text with its escapes decoded
(`unquote_doubled`): a backslash and one of the letters t, n, f and r stand for a control character.
The four replacements, one kind after the other, are the same as one pass over the text
(`unquote_eq_decodeEscapes`), since no replacement makes an escape of another kind.

So a literal is read as the text that it was made from exactly if that has none of the escapes in it
(`decodeEscapes_eq_self_iff`). A path such as `C:\temp` has.
-/

set_option autoImplicit false

namespace VbaTrace.Grammar

open Cursor (between)

/-! Doubled quotes -/

/-- The text with every quote in it written twice. -/
def doubled (quote : Char) : List Char → List Char
  | [] => []
  | c :: cs => if c = quote then quote :: quote :: doubled quote cs else c :: doubled quote cs

section

variable {quote c : Char} {cs : List Char}

theorem doubled_cons_of_ne (h : c ≠ quote) : doubled quote (c :: cs) = c :: doubled quote cs :=
  if_neg h

theorem doubled_cons_self : doubled quote (quote :: cs) = quote :: quote :: doubled quote cs :=
  if_pos rfl

theorem mem_doubled_iff : c ∈ doubled quote cs ↔ c ∈ cs := by
  induction cs with
  | nil => rfl
  | cons d ds ih =>
    by_cases hd : d = quote
    · subst hd
      simp [doubled_cons_self, ih]
    · simp [doubled_cons_of_ne hd, ih]

/-- A doubled quote is passed over, and a single one ends the literal. -/
theorem closingQuote_doubled (hlines : '\n' ∉ cs ∧ '\r' ∉ cs) {rest : List Char}
    (hrest : rest.head? ≠ some quote) (n : Nat) :
    closingQuote quote true (doubled quote cs ++ quote :: rest) n =
      some (n + (doubled quote cs).length) := by
  induction cs generalizing n with
  | nil =>
    cases rest with
    | nil => exact if_pos (beq_self_eq_true quote)
    | cons d ds =>
      have hd : ¬(d == quote) = true := fun heq ↦ hrest (congrArg some (eq_of_beq heq))
      change closingQuote quote true (quote :: d :: ds) n = _
      rw [closingQuote, if_pos (beq_self_eq_true quote), Bool.true_and, if_neg hd]
      rfl
  | cons c cs ih =>
    simp only [List.mem_cons, not_or] at hlines
    obtain ⟨⟨hfeed, hfeeds⟩, ⟨hreturn, hreturns⟩⟩ := hlines
    have hmore := ih ⟨hfeeds, hreturns⟩
    by_cases hc : c = quote
    · subst hc
      rw [doubled_cons_self, List.cons_append, List.cons_append, closingQuote,
        if_pos (beq_self_eq_true c), Bool.true_and, if_pos (beq_self_eq_true c), hmore]
      simp only [List.length_cons, Option.some.injEq]
      omega
    · obtain ⟨d, ds, hds⟩ : ∃ d ds, doubled quote cs ++ quote :: rest = d :: ds :=
        List.exists_cons_of_ne_nil (by simp)
      have hends : ¬(c == '\n' || c == '\r') = true := by
        simp only [Bool.or_eq_true, beq_iff_eq, not_or]
        exact ⟨Ne.symm hfeed, Ne.symm hreturn⟩
      have hquote : ¬(c == quote) = true := fun heq ↦ hc (eq_of_beq heq)
      rw [doubled_cons_of_ne hc, List.cons_append, hds, closingQuote, if_neg hquote, if_neg hends,
        ← hds, hmore]
      simp only [List.length_cons, Option.some.injEq]
      omega

theorem undouble_doubled (quote : Char) (cs : List Char) :
    undouble quote (doubled quote cs) = cs := by
  have hcons {c : Char} (hc : c ≠ quote) (ds : List Char) :
      undouble quote (c :: ds) = c :: undouble quote ds := by
    cases ds with
    | nil => rfl
    | cons d ds => rw [undouble, beq_false_of_ne hc, Bool.false_and, if_neg nofun]
  induction cs with
  | nil => rfl
  | cons c cs ih =>
    by_cases hc : c = quote
    · subst hc
      rw [doubled_cons_self, undouble, beq_self_eq_true, Bool.and_self, if_pos rfl, ih]
    · rw [doubled_cons_of_ne hc, hcons hc, ih]

end

/-! Escapes -/

section

variable {letter char : Char}

/-- What stands before an escape of this kind stays, and is no part of it. -/
theorem replaceEscape_cons {c : Char} {cs : List Char}
    (h : c = '\\' → cs.head? ≠ some letter) :
    replaceEscape letter char (c :: cs) = c :: replaceEscape letter char cs := by
  cases cs with
  | nil => rfl
  | cons d ds =>
    have hescape : ¬(c == '\\' && d == letter) = true := by
      rw [Bool.and_eq_true, beq_iff_eq, beq_iff_eq]
      exact fun ⟨hc, hd⟩ ↦ h hc (congrArg some hd)
    rw [replaceEscape, if_neg hescape]

theorem replaceEscape_escape (cs : List Char) :
    replaceEscape letter char ('\\' :: letter :: cs) = char :: replaceEscape letter char cs := by
  rw [replaceEscape, beq_self_eq_true, beq_self_eq_true, Bool.and_self, if_pos rfl]

/-- Escapes without quotes are replaced in the same way before and after quotes are doubled. -/
theorem replaceEscape_doubled {quote : Char} (hquote : quote ≠ '\\') (hletter : letter ≠ quote)
    (hchar : char ≠ quote) (cs : List Char) :
    replaceEscape letter char (doubled quote cs) = doubled quote (replaceEscape letter char cs) := by
  have hhead (ds : List Char) (h : ds.head? ≠ some letter) :
      (doubled quote ds).head? ≠ some letter := by
    cases ds with
    | nil => exact nofun
    | cons d ds =>
      by_cases hd : d = quote
      · subst hd
        rw [doubled_cons_self]
        exact fun heq ↦ hletter (Option.some.inj heq).symm
      · rwa [doubled_cons_of_ne hd]
  induction h : cs.length using Nat.strongRecOn generalizing cs with
  | ind n ih =>
    cases cs with
    | nil => rfl
    | cons c ds =>
      have hmore := ih ds.length (h ▸ Nat.lt_succ_self _) ds rfl
      by_cases hescape : c = '\\' ∧ ds.head? = some letter
      · obtain ⟨rfl, hds⟩ := hescape
        obtain ⟨es, rfl⟩ := List.head?_eq_some_iff.mp hds
        have hlater := ih es.length (by simp only [List.length_cons] at h; omega) es rfl
        rw [replaceEscape_escape, doubled_cons_of_ne (Ne.symm hquote), doubled_cons_of_ne hletter,
          doubled_cons_of_ne hchar, replaceEscape_escape, hlater]
      · have hplain : c = '\\' → ds.head? ≠ some letter := fun hc hds ↦ hescape ⟨hc, hds⟩
        rw [replaceEscape_cons hplain]
        by_cases hc : c = quote
        · subst hc
          rw [doubled_cons_self, doubled_cons_self,
            replaceEscape_cons fun heq ↦ absurd heq hquote,
            replaceEscape_cons fun heq ↦ absurd heq hquote, hmore]
        · rw [doubled_cons_of_ne hc, doubled_cons_of_ne hc,
            replaceEscape_cons fun heq ↦ hhead ds (hplain heq), hmore]

end

/-- The text with its escapes decoded, all in one pass: a backslash and a letter of the table stand
for the character beside the letter. -/
def decodeEscapes (table : List (Char × Char)) : List Char → List Char
  | [] => []
  | [c] => [c]
  | c :: d :: cs =>
    match if c = '\\' then table.lookup d else none with
    | some x => x :: decodeEscapes table cs
    | none => c :: decodeEscapes table (d :: cs)

section

variable {table : List (Char × Char)}

theorem mem_of_lookup {d x : Char} (h : table.lookup d = some x) : (d, x) ∈ table := by
  obtain ⟨front, back, rfl, -⟩ := List.lookup_eq_some_iff.mp h
  exact List.mem_append_right front List.mem_cons_self

theorem decodeEscapes_escape {d x : Char} (h : table.lookup d = some x) (cs : List Char) :
    decodeEscapes table ('\\' :: d :: cs) = x :: decodeEscapes table cs := by
  rw [decodeEscapes, if_pos rfl, h]

theorem decodeEscapes_cons {c : Char} {cs : List Char}
    (h : c = '\\' → ∀ d ∈ cs.head?, table.lookup d = none) :
    decodeEscapes table (c :: cs) = c :: decodeEscapes table cs := by
  cases cs with
  | nil => rfl
  | cons d ds =>
    have hnone : (if c = '\\' then table.lookup d else none) = none := by
      split_ifs with hc
      · exact h hc d rfl
      · rfl
    rw [decodeEscapes, hnone]

/-- A text that is not empty starts with an escape of the table, or with a character that stays. -/
theorem escape_or_plain (table : List (Char × Char)) (c : Char) (cs : List Char) :
    (∃ d x ds, c = '\\' ∧ cs = d :: ds ∧ table.lookup d = some x) ∨
      (c = '\\' → ∀ d ∈ cs.head?, table.lookup d = none) := by
  cases cs with
  | nil => exact .inr nofun
  | cons d ds =>
    by_cases hc : c = '\\'
    · cases hlookup : table.lookup d with
      | none => exact .inr fun _ e he ↦ Option.mem_some.mp he ▸ hlookup
      | some x => exact .inl ⟨d, x, ds, hc, rfl, hlookup⟩
    · exact .inr fun heq ↦ absurd heq hc

theorem decodeEscapes_nil (cs : List Char) : decodeEscapes [] cs = cs := by
  induction cs with
  | nil => rfl
  | cons c cs ih => rw [decodeEscapes_cons fun _ _ _ ↦ rfl, ih]

theorem head_decodeEscapes {cs : List Char} {x : Char}
    (h : (decodeEscapes table cs).head? = some x) : cs.head? = some x ∨ ∃ e ∈ table, e.2 = x := by
  cases cs with
  | nil => exact nomatch h
  | cons c cs =>
    rcases escape_or_plain table c cs with ⟨d, y, ds, rfl, rfl, hy⟩ | hplain
    · rw [decodeEscapes_escape hy] at h
      exact .inr ⟨_, mem_of_lookup hy, Option.some.inj h⟩
    · rw [decodeEscapes_cons hplain] at h
      exact .inl h

/-- To replace one more kind of escape afterwards is to have it in the table, as long as the characters
of the table make no escape of that kind. -/
theorem replaceEscape_decodeEscapes {letter char : Char} (hletter : letter ≠ '\\')
    (hnew : table.lookup letter = none) (hchars : ∀ e ∈ table, e.2 ≠ '\\' ∧ e.2 ≠ letter)
    (cs : List Char) :
    replaceEscape letter char (decodeEscapes table cs) =
      decodeEscapes (table ++ [(letter, char)]) cs := by
  induction h : cs.length using Nat.strongRecOn generalizing cs with
  | ind n ih =>
    cases cs with
    | nil => rfl
    | cons c cs =>
      have hmore := ih cs.length (h ▸ Nat.lt_succ_self _) cs rfl
      rcases escape_or_plain table c cs with ⟨d, x, ds, rfl, rfl, hx⟩ | hplain
      · have hlater := ih ds.length (by simp only [List.length_cons] at h; omega) ds rfl
        have hboth : (table ++ [(letter, char)]).lookup d = some x := by
          rw [List.lookup_append, hx, Option.some_or]
        rw [decodeEscapes_escape hx, decodeEscapes_escape hboth,
          replaceEscape_cons fun heq ↦ absurd heq (hchars _ (mem_of_lookup hx)).1, hlater]
      rw [decodeEscapes_cons hplain]
      by_cases hescape : c = '\\' ∧ cs.head? = some letter
      · obtain ⟨rfl, hhead⟩ := hescape
        obtain ⟨ds, rfl⟩ := List.head?_eq_some_iff.mp hhead
        have hlater := ih ds.length (by simp only [List.length_cons] at h; omega) ds rfl
        have hboth : (table ++ [(letter, char)]).lookup letter = some char := by
          rw [List.lookup_append, hnew, Option.none_or, List.lookup_cons_self]
        rw [decodeEscapes_cons fun heq ↦ absurd heq hletter, replaceEscape_escape,
          decodeEscapes_escape hboth, hlater]
      · have hkept : c = '\\' → (decodeEscapes table cs).head? ≠ some letter := by
          intro hc hhead
          rcases head_decodeEscapes hhead with hcs | ⟨e, he, heq⟩
          · exact hescape ⟨hc, hcs⟩
          · exact (hchars e he).2 heq
        have hboth (hc : c = '\\') (d : Char) (hd : d ∈ cs.head?) :
            (table ++ [(letter, char)]).lookup d = none := by
          have hne : d ≠ letter := fun heq ↦ hescape ⟨hc, heq ▸ hd⟩
          rw [List.lookup_append, hplain hc d hd, Option.none_or, List.lookup_cons,
            beq_false_of_ne hne]
          rfl
        rw [replaceEscape_cons hkept, decodeEscapes_cons hboth, hmore]

/-- Decoding changes nothing exactly where there is no escape. -/
theorem decodeEscapes_eq_self_iff (hchars : ∀ e ∈ table, e.2 ≠ '\\') (cs : List Char) :
    decodeEscapes table cs = cs ↔ ∀ e ∈ table, ¬['\\', e.1] <:+: cs := by
  induction cs with
  | nil => simp [decodeEscapes]
  | cons c cs ih =>
    rcases escape_or_plain table c cs with ⟨d, x, ds, rfl, rfl, hx⟩ | hplain
    · have hmem := mem_of_lookup hx
      have hoccurs : ['\\', d] <:+: '\\' :: d :: ds := ⟨[], ds, rfl⟩
      rw [decodeEscapes_escape hx]
      exact iff_of_false (fun heq ↦ hchars _ hmem (List.cons.inj heq).1)
        fun hnone ↦ hnone _ hmem hoccurs
    · have hfront (e : Char × Char) (he : e ∈ table) : ¬['\\', e.1] <+: c :: cs := by
        rintro hprefix
        obtain ⟨hc, ds, hds⟩ := List.cons_prefix_cons.mp hprefix
        have hnone := hplain hc.symm e.1 (hds ▸ rfl)
        have hne := List.lookup_eq_none_iff.mp hnone e he
        exact absurd rfl (bne_iff_ne.mp hne)
      rw [decodeEscapes_cons hplain, List.cons_inj_right, ih]
      refine forall₂_congr fun e he ↦ ?_
      rw [List.infix_cons_iff, or_iff_right (hfront e he)]

end

/-- The letters behind a backslash, with the control characters that they stand for. -/
def controlEscapes : List (Char × Char) :=
  [('t', '\t'), ('n', '\n'), ('f', '\x0C'), ('r', '\r')]

/-- The escapes of the four kinds are decoded at once. -/
theorem unquote_eq_decodeEscapes (quote : Char) (cs : List Char) :
    unquote quote false cs = decodeEscapes controlEscapes cs := by
  have hstep (table : List (Char × Char)) (letter char : Char)
      (h : letter ≠ '\\' ∧ table.lookup letter = none ∧
        ∀ e ∈ table, e.2 ≠ '\\' ∧ e.2 ≠ letter) :
      replaceEscape letter char (decodeEscapes table cs) =
        decodeEscapes (table ++ [(letter, char)]) cs :=
    replaceEscape_decodeEscapes h.1 h.2.1 h.2.2 cs
  have htab := hstep [] 't' '\t' (by simp)
  have hfeed := hstep [('t', '\t')] 'n' '\n' (by simp)
  have hform := hstep [('t', '\t'), ('n', '\n')] 'f' '\x0C' (by simp)
  have hreturn := hstep [('t', '\t'), ('n', '\n'), ('f', '\x0C')] 'r' '\r' (by simp)
  rw [decodeEscapes_nil] at htab
  change replaceEscape 'r' '\r' (replaceEscape 'f' '\x0C'
    (replaceEscape 'n' '\n' (replaceEscape 't' '\t' cs))) = _
  rw [htab, List.nil_append, hfeed, List.singleton_append, hform]
  exact hreturn

/-- What the literal of a text stands for is the text with its escapes decoded. -/
theorem unquote_doubled (cs : List Char) :
    unquote '"' true (doubled '"' cs) = decodeEscapes controlEscapes cs := by
  have hstep (letter char : Char) (h : letter ≠ '"' ∧ char ≠ '"') (ds : List Char) :
      replaceEscape letter char (doubled '"' ds) = doubled '"' (replaceEscape letter char ds) :=
    replaceEscape_doubled (by decide) h.1 h.2 ds
  rw [← unquote_eq_decodeEscapes '"' cs, unquote, if_pos rfl, hstep 't' '\t' (by decide),
    hstep 'n' '\n' (by decide), hstep 'f' '\x0C' (by decide), hstep 'r' '\r' (by decide),
    undouble_doubled]
  rfl

/-! Literals -/

/-- The text between quotes, with every quote in it written twice. -/
def literalOf (cs : List Char) : List Char :=
  '"' :: doubled '"' cs ++ ['"']

theorem startsVisibly_literalOf (cs : List Char) : startsVisibly (literalOf cs) = true := rfl

theorem advance_between (front w rest : List Char) :
    (between front (w ++ rest)).advance w.length = between (front ++ w) rest := by
  induction w generalizing front with
  | nil => rw [List.nil_append, List.append_nil]; rfl
  | cons x w ih =>
    have hstep : (between front (x :: (w ++ rest))).step = between (front ++ [x]) (w ++ rest) :=
      (Cursor.between_step front x (w ++ rest)).symm
    rw [List.cons_append, List.length_cons, Cursor.advance, hstep, ih, List.append_assoc,
      List.singleton_append]

section

variable {cs : List Char} (hlines : '\n' ∉ cs ∧ '\r' ∉ cs)
include hlines

theorem scan_literalOf {rest : List Char} (hrest : rest.head? ≠ some '"') (front : List Char) :
    (Lexeme.quoted '"' true true).scan (between front (literalOf cs ++ rest)) =
      some (between (front ++ literalOf cs) rest,
        some (String.ofList (decodeEscapes controlEscapes cs))) := by
  have hclosing := closingQuote_doubled hlines hrest 0
  have hlength : (literalOf cs).length = 0 + (doubled '"' cs).length + 2 := by
    simp [literalOf]
  have hadvance := advance_between front (literalOf cs) rest
  have hbody : (doubled '"' cs ++ '"' :: rest).take (0 + (doubled '"' cs).length) =
      doubled '"' cs := by
    rw [Nat.zero_add, List.take_left]
  have htext : literalOf cs ++ rest = '"' :: (doubled '"' cs ++ '"' :: rest) := by
    simp [literalOf]
  rw [hlength] at hadvance
  rw [Lexeme.scan, ← hadvance]
  simp only [htext, Cursor.between_rest, beq_self_eq_true, if_true, hclosing, hbody,
    unquote_doubled]

theorem ends_quotedString {rest : List Char} (hrest : rest.head? ≠ some '"') (depth : Nat)
    (front : List Char) (skip : Bool) :
    Pattern.quotedString.Ends depth skip .normal (between front (literalOf cs ++ rest))
      (.matched (between (front ++ literalOf cs) rest)
        (.one (.text (String.ofList (decodeEscapes controlEscapes cs))))) := by
  have hat := at_of_startsVisibly (startsVisibly_literalOf cs) front rest
  exact .build rfl (.lexeme (hat.enter _ _ _) (scan_literalOf hlines hrest front) depth) rfl

/-- The rules for quoted texts and for literals of any kind. -/
theorem readsAt_literalOf {r : Rule} (hr : r ∈ [Rule.quotedString, .literal]) (front : List Char) :
    ReadsAt 3 r front (fun rest ↦ rest.head? ≠ some '"') (literalOf cs)
      (.text (String.ofList (decodeEscapes controlEscapes cs))) := by
  intro rest hrest
  have hat := at_of_startsVisibly (startsVisibly_literalOf cs) front rest
  have hread := ends_quotedString hlines hrest 2 front
  simp only [List.mem_cons, List.not_mem_nil, or_false] at hr
  rcases hr with rfl | rfl
  · exact .rule (hat.enter _ _ _) (hread false)
  · have hrefused : (Pattern.booleanLiteral.front (Rule.refuses (some '"') 2) (some '"') ==
          .refused && Pattern.integer.front (Rule.refuses (some '"') 2) (some '"') ==
          .refused) = true := by
      decide +kernel
    rw [Bool.and_eq_true, beq_iff_eq, beq_iff_eq] at hrefused
    refine .rule (hat.enter _ _ _) (.build (o := .matched _ (.one (.text _))) rfl ?_ rfl)
    refine .first_of_failed (Pattern.ends_of_front hat hrefused.1 true .normal) ?_
    refine .first_of_failed (Pattern.ends_of_front hat hrefused.2 true .normal) ?_
    exact .first_of_matched (hread true)

/-- A literal without a tab in it is read as a whole. -/
theorem readAll_literalOf (htab : '\t' ∉ cs) {r : Rule} (hr : r ∈ [Rule.quotedString, .literal]) :
    readAll r (String.ofList (literalOf cs)) =
      .ok (.one (.text (String.ofList (decodeEscapes controlEscapes cs)))) := by
  have htabs : '\t' ∉ literalOf cs := by
    simp [literalOf, mem_doubled_iff, htab]
  have hdepth : 3 ≤ depthBound (literalOf cs).length := by
    rw [depthBound]
    omega
  have hknown : r.isKnown = true := by
    simp only [List.mem_cons, List.not_mem_nil, or_false] at hr
    rcases hr with rfl | rfl <;> rfl
  exact (readsAt_literalOf hlines hr []).readAll_eq nofun htabs hdepth hknown

end

/-- The literal of a text on one line, without tabs, is read as the text with its escapes decoded.
That is the text itself exactly if no backslash in it comes before one of the letters t, n, f and
r. -/
theorem literal_keeps_text_iff (s : String) (hs : ∀ c ∈ ['\r', '\n', '\t'], c ∉ s.toList)
    (r : Rule) (hr : r ∈ [Rule.quotedString, .literal]) :
    readAll r (String.ofList (literalOf s.toList)) =
        .ok (.one (.text (String.ofList (decodeEscapes controlEscapes s.toList)))) ∧
      (readAll r (String.ofList (literalOf s.toList)) = .ok (.one (.text s)) ↔
        ∀ e ∈ controlEscapes, ¬['\\', e.1] <:+: s.toList) := by
  have hread := readAll_literalOf ⟨hs '\n' (by simp), hs '\r' (by simp)⟩ (hs '\t' (by simp)) hr
  refine ⟨hread, ?_⟩
  have hchars : ∀ e ∈ controlEscapes, e.2 ≠ '\\' := by simp [controlEscapes]
  rw [hread, ← decodeEscapes_eq_self_iff hchars]
  constructor
  · intro heq
    have htext : String.ofList (decodeEscapes controlEscapes s.toList) = s := by
      simpa [Tokens.one] using heq
    rw [← String.toList_ofList (l := decodeEscapes controlEscapes s.toList), htext]
  · intro heq
    rw [heq, String.ofList_toList]

theorem literal_keeps_text_iff_share :
    (∀ c ∈ ['\r', '\n', '\t'], c ∉ "\\\\srv\\\"x\"".toList) ∧
      Rule.quotedString ∈ [Rule.quotedString, .literal] ∧
      readAll .quotedString "\"\\\\srv\\\"\"x\"\"\"" = .ok (.one (.text "\\\\srv\\\"x\"")) := by
  have hs : ∀ c ∈ ['\r', '\n', '\t'], c ∉ "\\\\srv\\\"x\"".toList := by simp
  have hread := (literal_keeps_text_iff "\\\\srv\\\"x\"" hs .quotedString List.mem_cons_self).2
  refine ⟨hs, List.mem_cons_self, hread.mpr ?_⟩
  simp [controlEscapes, List.infix_cons_iff, List.cons_prefix_cons]

/-- The escape of a tab in a path is decoded. -/
theorem path_read_with_tab :
    (∀ c ∈ ['\r', '\n', '\t'], c ∉ "C:\\temp".toList) ∧
      readAll .quotedString "\"C:\\temp\"" = .ok (.one (.text "C:\temp")) ∧
      readAll .quotedString "\"C:\\temp\"" ≠ .ok (.one (.text "C:\\temp")) := by
  have hread : readAll .quotedString "\"C:\\temp\"" = .ok (.one (.text "C:\temp")) :=
    readAll_literalOf (by simp : '\n' ∉ "C:\\temp".toList ∧ '\r' ∉ "C:\\temp".toList) (by simp)
      List.mem_cons_self
  refine ⟨by simp, hread, ?_⟩
  rw [hread]
  simp [Tokens.one]

end VbaTrace.Grammar
