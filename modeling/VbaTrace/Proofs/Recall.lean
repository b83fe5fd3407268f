import Mathlib.Tactic.SplitIfs
import VbaTrace.Proofs.Reading

/-!
Remembering outcomes does not change them. Reading keeps a memory of outcomes by rule, mode and
position (`recallRule`); reading without one is `runRule`. The two are compared for cursors in one
text, where the position alone tells what lies ahead.

A remembered outcome may have been found at another depth than the one at which it is used. So the
memory is faithful when every outcome in it bounds what reading without memory finds at any depth,
where nothing but exhaustion lies below another outcome. Reading with a memory follows reading without
one (`follows_recallRule`): it ends in the same outcome wherever the depth suffices
(`recalled_of_runRule`). What is read is therefore told by `runRule` alone (`readFront_of_matched`,
`readAll_of_matched`, `findAll_of_matched`).
-/

set_option autoImplicit false

namespace VbaTrace.Grammar

/-! Cursors in a text -/

namespace Cursor

/-- The cursor stands in a text, between what lies before it and its rest. -/
def In (text : List Char) (c : Cursor) : Prop :=
  ∃ front, text = front ++ c.rest ∧ c.offset = front.length ∧ c.before = front.getLast?

variable {text : List Char} {c d : Cursor}

theorem in_start (text : List Char) : (start text).In text :=
  ⟨[], rfl, rfl, rfl⟩

/-- In one text, the number of characters before a cursor tells the cursor. -/
theorem In.eq_of_offset (hc : c.In text) (hd : d.In text) (h : c.offset = d.offset) : c = d := by
  obtain ⟨offset, before, rest⟩ := c
  obtain ⟨offset', before', rest'⟩ := d
  obtain ⟨front, htext, hoffset, hbefore⟩ := hc
  obtain ⟨front', htext', hoffset', hbefore'⟩ := hd
  dsimp only at *
  have hlength : front.length = front'.length := by omega
  obtain ⟨rfl, rfl⟩ := List.append_inj (htext.symm.trans htext') hlength
  rw [hbefore, hbefore', h]

theorem In.onward {x : Char} {xs : List Char} (hc : c.In text) (hrest : c.rest = x :: xs) :
    Cursor.In text ⟨c.offset + 1, some x, xs⟩ := by
  obtain ⟨front, htext, hoffset, -⟩ := hc
  refine ⟨front ++ [x], ?_, ?_, ?_⟩
  · rw [htext, hrest, List.append_assoc, List.singleton_append]
  · simp [hoffset]
  · simp

theorem In.step (hc : c.In text) : c.step.In text := by
  obtain ⟨offset, before, rest⟩ := c
  cases rest with
  | nil => exact hc
  | cons x xs => exact hc.onward rfl

theorem In.advance (hc : c.In text) (n : Nat) : (c.advance n).In text := by
  induction n generalizing c with
  | zero => exact hc
  | succ n ih => exact ih hc.step

theorem In.skipWhile (hc : c.In text) (p : Char → Bool) : (c.skipWhile p).In text := by
  obtain ⟨offset, before, rest⟩ := c
  change (skipWhile.go p offset before rest).In text
  induction rest generalizing offset before with
  | nil => exact hc
  | cons x xs ih =>
    rw [skipWhile.go]
    split_ifs
    · exact ih _ _ (hc.onward rfl)
    · exact hc

end Cursor

section

variable {text : List Char} {c d : Cursor}

theorem in_of_exactMatch {word : List Char} (hc : c.In text) (h : exactMatch word c = some d) :
    d.In text := by
  induction word generalizing c with
  | nil =>
    cases h
    exact hc
  | cons w ws ih =>
    rw [exactMatch] at h
    split at h
    · exact nomatch h
    · next hrest =>
      split_ifs at h
      exact ih (hc.onward hrest) h

theorem in_of_caselessMatch {word : List Char} (hc : c.In text)
    (h : caselessMatch word c = some d) : d.In text := by
  induction word generalizing c with
  | nil =>
    cases h
    exact hc
  | cons w ws ih =>
    rw [caselessMatch] at h
    split at h
    · exact nomatch h
    · next hrest =>
      split_ifs at h
      all_goals exact ih (hc.onward hrest) h

theorem in_of_scan {l : Lexeme} {s : Option String} (hc : c.In text)
    (h : l.scan c = some (d, s)) : d.In text := by
  unfold Lexeme.scan at h
  cases l with
  | exact word =>
    obtain ⟨e, he, heq⟩ := Option.map_eq_some_iff.mp h
    cases heq
    exact in_of_exactMatch hc he
  | caseless word =>
    obtain ⟨e, he, heq⟩ := Option.map_eq_some_iff.mp h
    cases heq
    exact in_of_caselessMatch hc he
  | keyword word =>
    dsimp only at h
    split at h
    · exact nomatch h
    · next e he =>
      split_ifs at h
      cases h
      exact in_of_caselessMatch hc he
  | word first more =>
    dsimp only at h
    split at h
    · exact nomatch h
    · split_ifs at h
      cases h
      exact hc.step.skipWhile _
  | sign set =>
    dsimp only at h
    split at h
    · exact nomatch h
    · split_ifs at h
      cases h
      exact hc.step
  | loneSign set =>
    dsimp only at h
    split at h
    · exact nomatch h
    · split_ifs at h
      cases h
      exact hc.step
  | «except» stops =>
    dsimp only at h
    split_ifs at h
    cases h
    exact hc.skipWhile _
  | oneExcept stops =>
    dsimp only at h
    split at h
    · exact nomatch h
    · split_ifs at h
      cases h
      exact hc.step
  | signedDigits =>
    dsimp only at h
    split_ifs at h
    cases h
    refine Cursor.In.skipWhile ?_ _
    split
    · exact hc.step
    · exact hc.step
    · exact hc
  | quoted quote doubled bare =>
    dsimp only at h
    split at h
    · exact nomatch h
    · split at h
      · split at h
        · exact nomatch h
        · cases h
          exact hc.advance _
      · exact nomatch h
  | lineStart =>
    dsimp only at h
    split_ifs at h
    cases h
    exact hc
  | nothing =>
    cases h
    exact hc

theorem in_passBlanks (hc : c.In text) (lead : Lead) (mode : Mode) :
    (passBlanks lead mode c).In text := by
  unfold passBlanks
  split_ifs
  · exact hc.skipWhile _
  · exact hc

theorem in_skipped (hc : c.In text) (skip : Bool) (lead : Lead) (mode : Mode) :
    (if skip then passBlanks lead mode c else c).In text := by
  split_ifs
  · exact in_passBlanks hc _ _
  · exact hc

theorem in_enter (hc : c.In text) (p : Pattern) (skip : Bool) (mode : Mode) :
    (enter p skip mode c).In text := by
  unfold enter
  split_ifs
  · exact in_passBlanks hc _ _
  · exact hc

end

/-! Outcomes and memories -/

namespace Outcome

/-- A match ends at a cursor in the text. -/
def In (text : List Char) : Outcome → Prop
  | matched d _ => d.In text
  | failed | faulty _ | exhausted => True

/-- Exhaustion lies below every outcome, and nothing else below another one. -/
def Below (o o' : Outcome) : Prop :=
  o = exhausted ∨ o = o'

variable {text : List Char} {o : Outcome}

theorem In.mapTokens (ho : o.In text) (f : Tokens → Tokens) : (o.mapTokens f).In text := by
  cases o with
  | matched => exact ho
  | _ => exact True.intro

theorem In.built (ho : o.In text) (b : Builder) : (o.built b).In text := by
  cases o with
  | matched d t =>
    unfold Outcome.built
    dsimp only
    split
    · exact ho
    · exact True.intro
    · exact True.intro
  | _ => exact True.intro

theorem in_ofLexeme {l : Lexeme} {c : Cursor} (hc : c.In text) : (ofLexeme (l.scan c)).In text := by
  rcases hscan : l.scan c with _ | ⟨d, _ | s⟩
  · exact True.intro
  · exact in_of_scan hc hscan
  · exact in_of_scan hc hscan

end Outcome

/-- What is remembered for a rule at a position bounds what reading without memory finds there, at
any depth. -/
def Faithful (text : List Char) (memory : Memory) : Prop :=
  ∀ (r : Rule) (mode : Mode) (c : Cursor) (o : Outcome), r.isKnown = true → c.In text →
    memory[memoryKey r mode c]? = some o → o.In text ∧ ∀ depth, (runRule depth r mode c).Below o

theorem faithful_empty (text : List Char) : Faithful text {} := by
  intro r mode c o _ _ hfind
  rw [Std.TreeMap.getElem?_emptyc] at hfind
  exact nomatch hfind

theorem Faithful.insert {text : List Char} {memory : Memory} (hmemory : Faithful text memory)
    {r : Rule} (hr : r.isKnown = true) {mode : Mode} {c : Cursor} (hc : c.In text) {o : Outcome}
    (ho : o.In text) (hbound : ∀ depth, (runRule depth r mode c).Below o) :
    Faithful text (memory.insert (memoryKey r mode c) o) := by
  intro r' mode' c' o' hr' hc' hfind
  rw [Std.TreeMap.getElem?_insert] at hfind
  split at hfind
  · next hkey =>
    obtain ⟨rfl, rfl, hoffset⟩ := memoryKey_injective hr hr' (Nat.compare_eq_eq.mp hkey)
    obtain rfl := hc.eq_of_offset hc' hoffset
    cases hfind
    exact ⟨ho, hbound⟩
  · exact hmemory r' mode' c' o' hr' hc' hfind

/-! Computations with and without memory -/

section

variable {text : List Char} {within : Prop}

/-- Run with a faithful memory, `y` keeps it faithful and ends in the outcome `x`. When `x` is
exhausted nothing is said of its outcome, and `y` itself may only be exhausted beyond the limit that
`within` stands for. -/
structure Follows (text : List Char) (within : Prop) (x : Id Outcome) (y : StateM Memory Outcome) :
    Prop where
  memory (memory : Memory) : Faithful text memory → Faithful text (Id.run (y.run memory)).2
  stays (memory : Memory) : Faithful text memory → (Id.run (y.run memory)).1.In text
  agrees (memory : Memory) : Faithful text memory →
    Outcome.Below x (Id.run (y.run memory)).1 ∨
      (Id.run (y.run memory)).1 = .exhausted ∧ ¬within

/-- Run with a faithful memory, the computation keeps it faithful and is exhausted. -/
structure Exhausts (text : List Char) (y : StateM Memory Outcome) : Prop where
  memory (memory : Memory) : Faithful text memory → Faithful text (Id.run (y.run memory)).2
  exhausted (memory : Memory) : Faithful text memory → (Id.run (y.run memory)).1 = .exhausted

theorem exhausts_pure : Exhausts text (pure .exhausted) :=
  ⟨fun _ hmemory ↦ hmemory, fun _ _ ↦ rfl⟩

namespace Follows

theorem pure {o : Outcome} (ho : o.In text) : Follows text within (Pure.pure o) (Pure.pure o) :=
  ⟨fun _ hmemory ↦ hmemory, fun _ _ ↦ ho, fun _ _ ↦ .inl (.inr rfl)⟩

/-- An exhausted part exhausts the whole. -/
theorem bind_of_exhausts {x : Id Outcome} {y : StateM Memory Outcome} (hx : Follows text within x y)
    {f : Outcome → Id Outcome} {g : Outcome → StateM Memory Outcome}
    (hf : f .exhausted = .exhausted) (hg : Exhausts text (g .exhausted))
    (h : ∀ o, o.In text → o ≠ .exhausted → Follows text within (f o) (g o)) :
    Follows text within (x >>= f) (y >>= g) := by
  have hrest (memory : Memory) : Id.run ((y >>= g).run memory) =
      Id.run ((g (Id.run (y.run memory)).1).run (Id.run (y.run memory)).2) := rfl
  refine ⟨fun memory hmemory ↦ ?_, fun memory hmemory ↦ ?_, fun memory hmemory ↦ ?_⟩
  · rw [hrest]
    by_cases ho : (Id.run (y.run memory)).1 = .exhausted
    · rw [ho]
      exact hg.memory _ (hx.memory memory hmemory)
    · exact (h _ (hx.stays memory hmemory) ho).memory _ (hx.memory memory hmemory)
  · rw [hrest]
    by_cases ho : (Id.run (y.run memory)).1 = .exhausted
    · rw [ho, hg.exhausted _ (hx.memory memory hmemory)]
      exact True.intro
    · exact (h _ (hx.stays memory hmemory) ho).stays _ (hx.memory memory hmemory)
  · rw [hrest]
    change Outcome.Below (f x) _ ∨ _
    have hmemory' := hx.memory memory hmemory
    by_cases ho : (Id.run (y.run memory)).1 = .exhausted
    · rw [ho, hg.exhausted _ hmemory']
      rcases hx.agrees memory hmemory with (hbelow | hsame) | ⟨-, hwithin⟩
      · exact .inl (.inl (by rw [hbelow, hf]))
      · exact .inl (.inl (by rw [hsame, ho, hf]))
      · exact .inr ⟨rfl, hwithin⟩
    · rcases hx.agrees memory hmemory with (hbelow | hsame) | ⟨hexhausted, -⟩
      · exact .inl (.inl (by rw [hbelow, hf]))
      · rw [hsame]
        exact (h _ (hx.stays memory hmemory) ho).agrees _ hmemory'
      · exact absurd hexhausted ho

/-- What follows a match and what follows a failure have to agree; all else ends the whole. -/
theorem bind {x : Id Outcome} {y : StateM Memory Outcome} (hx : Follows text within x y)
    {f : Outcome → Id Outcome} {g : Outcome → StateM Memory Outcome}
    (hmatched : ∀ d t, d.In text → Follows text within (f (.matched d t)) (g (.matched d t)))
    (hfailed : Follows text within (f .failed) (g .failed))
    (hfaulty : ∀ e, f (.faulty e) = .faulty e ∧ g (.faulty e) = Pure.pure (.faulty e) := by
      exact fun _ ↦ ⟨rfl, rfl⟩)
    (hexhausted : f .exhausted = .exhausted ∧ g .exhausted = Pure.pure .exhausted := by
      exact ⟨rfl, rfl⟩) :
    Follows text within (x >>= f) (y >>= g) := by
  refine hx.bind_of_exhausts hexhausted.1 (hexhausted.2 ▸ exhausts_pure) fun o ho hne ↦ ?_
  cases o with
  | matched d t => exact hmatched d t ho
  | failed => exact hfailed
  | faulty e =>
    rw [(hfaulty e).1, (hfaulty e).2]
    exact pure True.intro
  | exhausted => exact absurd rfl hne

/-- What is exhausted already stays so, whatever is looked at meanwhile. -/
theorem exhausts {x : Id Outcome} {y : StateM Memory Outcome} (hx : Follows text within x y)
    {g : Outcome → StateM Memory Outcome} (hg : ∀ o, g o = Pure.pure .exhausted) :
    Exhausts text (y >>= g) := by
  rw [funext hg]
  exact ⟨hx.memory, fun _ _ ↦ rfl⟩

/-- An outcome that stands already is not changed by what is looked at meanwhile. -/
theorem bind_const {x : Id Outcome} {y : StateM Memory Outcome} (hx : Follows text within x y)
    {o : Outcome} (ho : o.In text) {f : Outcome → Id Outcome} (hf : f x = o)
    {g : Outcome → StateM Memory Outcome} (hg : ∀ o', g o' = Pure.pure o) :
    Follows text within (x >>= f) (y >>= g) := by
  rw [funext hg]
  exact ⟨hx.memory, fun _ _ ↦ ho, fun _ _ ↦ .inl (.inr hf)⟩

theorem map {x : Id Outcome} {y : StateM Memory Outcome} (hx : Follows text within x y)
    {f : Outcome → Outcome} (hf : f .exhausted = .exhausted)
    (hin : ∀ o, o.In text → (f o).In text) :
    Follows text within (do return f (← x)) (do return f (← y)) :=
  hx.bind_of_exhausts hf (hf.symm ▸ exhausts_pure) fun _ ho _ ↦ pure (hin _ ho)

end Follows

/-! Patterns -/

theorem follows_repeated {step : Cursor → Id Outcome} {ask : Cursor → StateM Memory Outcome}
    (hstep : ∀ c, c.In text → Follows text within (step c) (ask c)) (n : Nat) {c : Cursor}
    (hc : c.In text) (t : Tokens) :
    Follows text within (repeated step n c t) (repeated ask n c t) := by
  induction n generalizing c t with
  | zero => exact .pure hc
  | succ n ih =>
    rw [repeated, repeated]
    exact (hstep c hc).bind (fun d u hd ↦ ih hd _) (.pure hc)

theorem follows_searched {stop : Cursor → Id Outcome} {ask : Cursor → StateM Memory Outcome}
    (hstop : ∀ c, c.In text → Follows text within (stop c) (ask c)) (start : Cursor) (n : Nat)
    {c : Cursor} (hc : c.In text) :
    Follows text within (searched stop start n c) (searched ask start n c) := by
  induction n generalizing c with
  | zero => exact .pure True.intro
  | succ n ih =>
    rw [searched, searched]
    refine (hstop c hc).bind (fun _ _ _ ↦ .pure hc) ?_
    dsimp only
    split_ifs
    · exact .pure True.intro
    · exact ih hc.step

theorem follows_preferred {longer shorter : Id Outcome} {ask ask' : StateM Memory Outcome}
    (hlonger : Follows text within longer ask) (hshorter : Follows text within shorter ask')
    (longerEnd shorterEnd : Nat) :
    Follows text within (preferred longer shorter longerEnd shorterEnd)
      (preferred ask ask' longerEnd shorterEnd) := by
  unfold preferred
  refine hlonger.bind (fun c t hc ↦ ?_) hshorter
  dsimp only
  split_ifs
  · exact .pure hc
  · refine hshorter.bind (fun d u hd ↦ .pure ?_) (.pure hc)
    split_ifs
    · exact hd
    · exact hc

section

variable {call : Rule → Mode → Cursor → Id Outcome}
  {ask : Rule → Mode → Cursor → StateM Memory Outcome}

theorem follows_longest {a b : Pattern} {c : Cursor}
    (ha : ∀ mode, Follows text within (a.run call true mode c) (a.run ask true mode c))
    (hb : ∀ mode, Follows text within (b.run call true mode c) (b.run ask true mode c))
    (skip : Bool) (mode : Mode) :
    Follows text within ((Pattern.longest a b).run call skip mode c)
      ((Pattern.longest a b).run ask skip mode c) := by
  rw [Pattern.run, Pattern.run]
  refine (ha mode.look).bind_of_exhausts ?_ ((hb mode.look).exhausts ?_) fun x hx hne ↦ ?_
  · cases (b.run call true mode.look c : Id Outcome) <;> rfl
  · intro o
    cases o <;> rfl
  cases x with
  | matched d t =>
    refine (hb mode.look).bind (fun e u he ↦ ?_) ?_
    · dsimp only
      split_ifs
      · exact follows_preferred (hb mode) (ha mode) _ _
      · exact follows_preferred (ha mode) (hb mode) _ _
      · exact .pure he
      · exact .pure hx
    · dsimp only
      split_ifs
      · exact ha mode
      · exact .pure hx
  | failed =>
    refine (hb mode.look).bind (fun e u he ↦ ?_) (.pure True.intro)
    dsimp only
    split_ifs
    · exact hb mode
    · exact .pure he
  | faulty f =>
    have hin : (Outcome.faulty f).In text := True.intro
    refine (hb mode.look).bind_const hin ?_ fun y ↦ ?_
    · cases (b.run call true mode.look c : Id Outcome) <;> rfl
    · cases y <;> rfl
  | exhausted => exact absurd rfl hne

theorem follows_chain {operand op right : Pattern} {mode : Mode}
    (hoperand : ∀ c, c.In text →
      Follows text within (operand.run call true mode c) (operand.run ask true mode c))
    (hop : ∀ c, c.In text →
      Follows text within (op.run call true mode c) (op.run ask true mode c))
    (hright : ∀ c, c.In text →
      Follows text within (right.run call true mode c) (right.run ask true mode c))
    (b : Option Builder) (skip : Bool) {c : Cursor} (hc : c.In text) :
    Follows text within ((Pattern.chain operand op right b).run call skip mode c)
      ((Pattern.chain operand op right b).run ask skip mode c) := by
  rw [Pattern.run, Pattern.run]
  refine (hoperand c hc).bind (fun d t hd ↦ ?_) (.pure True.intro)
  refine (follows_repeated (fun e he ↦ ?_) _ hd t).bind (fun e u he ↦ ?_) (.pure True.intro)
  · refine (hop e he).bind (fun e₁ u he₁ ↦ ?_) (.pure True.intro)
    exact (hright e₁ he₁).bind (fun _ _ he₂ ↦ .pure he₂) (.pure True.intro)
  · have hlist : (Outcome.matched e (.one (.tokens u))).In text := he
    dsimp only
    split_ifs
    · exact .pure hd
    · cases b with
      | some b => exact .pure (hlist.built b)
      | none => exact .pure hlist
    · cases b <;> exact .pure hlist

/-- The match of a pattern follows when those of its rules do. -/
theorem Pattern.follows_run
    (hcall : ∀ r mode c, r.isKnown = true → c.In text →
      Follows text within (call r mode c) (ask r mode c))
    {p : Pattern} (hp : p.wellFormed = true) (skip : Bool) (mode : Mode) {c : Cursor}
    (hc : c.In text) : Follows text within (p.run call skip mode c) (p.run ask skip mode c) := by
  induction p generalizing skip mode c with
  | lexeme l => exact .pure (Outcome.in_ofLexeme (in_enter hc _ _ _))
  | rule r => exact hcall r mode _ hp (in_enter hc _ _ _)
  | seq a b iha ihb =>
    rw [wellFormed, Bool.and_eq_true] at hp
    rw [Pattern.run, Pattern.run]
    refine (iha hp.1 false mode (in_skipped hc skip a.lead mode)).bind (fun d t hd ↦ ?_)
      (.pure True.intro)
    exact (ihb hp.2 true mode hd).bind (fun _ _ he ↦ .pure he) (.pure True.intro)
  | first a b iha ihb =>
    rw [wellFormed, Bool.and_eq_true] at hp
    rw [Pattern.run, Pattern.run]
    exact (iha hp.1 true mode hc).bind (fun _ _ hd ↦ .pure hd) (ihb hp.2 true mode hc)
  | longest a b iha ihb =>
    rw [wellFormed, Bool.and_eq_true] at hp
    exact follows_longest (iha hp.1 true · hc) (ihb hp.2 true · hc) skip mode
  | optional p ih =>
    rw [Pattern.run, Pattern.run]
    have hstart := in_enter hc p skip mode
    exact (ih hp false mode hstart).bind (fun _ _ hd ↦ .pure hd) (.pure hstart)
  | orBlank p ih =>
    rw [Pattern.run, Pattern.run]
    have hstart := in_enter hc p skip mode
    exact (ih hp false mode hstart).bind (fun _ _ hd ↦ .pure hd) (.pure hstart)
  | many p ih =>
    rw [Pattern.run, Pattern.run]
    have hstart := in_enter hc p skip mode
    refine (ih hp false mode hstart).bind (fun d t hd ↦ ?_) (.pure hstart)
    exact follows_repeated (fun _ he ↦ ih hp true mode he) _ hd t
  | atLeastOne p ih =>
    rw [Pattern.run, Pattern.run]
    refine (ih hp false mode (in_enter hc p skip mode)).bind (fun d t hd ↦ ?_) (.pure True.intro)
    exact follows_repeated (fun _ he ↦ ih hp true mode he) _ hd t
  | absent p ih =>
    rw [Pattern.run, Pattern.run]
    exact (ih hp true mode.look hc).bind (fun _ _ _ ↦ .pure True.intro) (.pure hc)
  | ahead p ih =>
    rw [Pattern.run, Pattern.run]
    have hstart := in_enter hc p skip mode
    exact (ih hp true mode hstart).bind (fun _ _ _ ↦ .pure hstart) (.pure True.intro)
  | upTo p ih =>
    exact follows_searched (fun _ hd ↦ ih hp false mode.look hd) _ _ (in_enter hc p skip mode)
  | group p ih => exact (ih hp skip mode hc).map rfl fun _ ho ↦ ho.mapTokens _
  | drop p ih => exact (ih hp skip mode hc).map rfl fun _ ho ↦ ho.mapTokens _
  | joined p ih =>
    exact (ih hp false mode.tighten (in_skipped hc skip _ mode)).map rfl fun _ ho ↦ ho.mapTokens _
  | joinedLoosely p ih =>
    exact (ih hp false mode (in_skipped hc skip _ mode)).map rfl fun _ ho ↦ ho.mapTokens _
  | tight p ih => exact ih hp false mode.tighten hc
  | label name extent p ih => exact (ih hp skip mode hc).map rfl fun _ ho ↦ ho.mapTokens _
  | build b p ih =>
    rw [wellFormed, Bool.and_eq_true] at hp
    refine (ih hp.1 skip mode hc).map ?_ fun o ho ↦ ?_
    · split_ifs <;> rfl
    · split_ifs
      · exact ho.built b
      · exact ho
  | chain operand op right b ihoperand ihop ihright =>
    simp only [wellFormed, Bool.and_eq_true] at hp
    obtain ⟨⟨⟨hoperand, hop⟩, hright⟩, -⟩ := hp
    exact follows_chain (fun _ hd ↦ ihoperand hoperand true mode hd)
      (fun _ hd ↦ ihop hop true mode hd) (fun _ hd ↦ ihright hright true mode hd) b skip hc

end

end

/-! Rules -/

section

variable {text : List Char}

theorem recallRule_of_some {depth : Nat} {r : Rule} {mode : Mode} {c : Cursor} {memory : Memory}
    {o : Outcome} (h : memory[memoryKey r mode c]? = some o) :
    Id.run ((recallRule (depth + 1) r mode c).run memory) = (o, memory) := by
  rw [recallRule]
  simp only [StateT.run_bind, StateT.run_get, pure_bind, h, StateT.run_pure]
  rfl

/-- A new outcome is remembered, unless the depth was exhausted. -/
theorem recallRule_of_none {depth : Nat} {r : Rule} {mode : Mode} {c : Cursor}
    {memory memory' : Memory} {o : Outcome} (h : memory[memoryKey r mode c]? = none)
    (hrun : ((Pattern.ofRule r).run (recallRule depth) false mode c).run memory =
      (o, memory')) :
    ∃ kept, Id.run ((recallRule (depth + 1) r mode c).run memory) = (o, kept) ∧
      (kept = memory' ∨ o ≠ .exhausted ∧ kept = memory'.insert (memoryKey r mode c) o) := by
  have hpure : ((Pattern.ofRule r).run (recallRule depth) false mode c).run memory =
      pure (o, memory') := hrun
  rw [recallRule]
  simp only [StateT.run_bind, StateT.run_get, pure_bind, h, hpure]
  cases o with
  | exhausted => exact ⟨_, rfl, .inl rfl⟩
  | _ => exact ⟨_, rfl, .inr ⟨fun heq ↦ Outcome.noConfusion heq, rfl⟩⟩

/-- Reading with a memory ends as reading without one, where the depth of the latter is no more than
that of the former; beyond that, it may be exhausted instead. -/
theorem follows_recallRule (depth depth' : Nat) {r : Rule} (hr : r.isKnown = true) (mode : Mode)
    {c : Cursor} (hc : c.In text) :
    Follows text (depth' ≤ depth) (runRule depth' r mode c) (recallRule depth r mode c) := by
  induction depth generalizing depth' r mode c with
  | zero =>
    refine ⟨fun _ hmemory ↦ hmemory, fun _ _ ↦ True.intro, fun _ _ ↦ ?_⟩
    cases depth' with
    | zero => exact .inl (.inl rfl)
    | succ depth' => exact .inr ⟨rfl, by omega⟩
  | succ depth ih =>
    obtain ⟨hwell, -⟩ := Rule.wellFormed_ofRule hr
    have hrun (depth' : Nat) : Follows text (depth' ≤ depth) (runRule (depth' + 1) r mode c)
        ((Pattern.ofRule r).run (recallRule depth) false mode c) :=
      Pattern.follows_run (fun r mode c hr hc ↦ ih depth' hr mode hc) hwell false mode hc
    suffices hstep : ∀ memory : Memory, Faithful text memory → ∃ o kept,
        Id.run ((recallRule (depth + 1) r mode c).run memory) = (o, kept) ∧
          Faithful text kept ∧ o.In text ∧
            ((runRule depth' r mode c).Below o ∨ o = .exhausted ∧ ¬depth' ≤ depth + 1) by
      refine ⟨fun memory hmemory ↦ ?_, fun memory hmemory ↦ ?_, fun memory hmemory ↦ ?_⟩ <;>
        obtain ⟨o, kept, heq, hkept, hin, hagrees⟩ := hstep memory hmemory <;> rw [heq]
      · exact hkept
      · exact hin
      · exact hagrees
    intro memory hmemory
    cases hfind : memory[memoryKey r mode c]? with
    | some o =>
      obtain ⟨hin, hbound⟩ := hmemory r mode c o hr hc hfind
      exact ⟨o, memory, recallRule_of_some hfind, hmemory, hin, .inl (hbound depth')⟩
    | none =>
      rcases hfound : ((Pattern.ofRule r).run (recallRule depth) false mode c).run memory with
        ⟨o, memory'⟩
      have hmemory' : Faithful text memory' := by
        have := (hrun 0).memory memory hmemory
        rwa [hfound] at this
      have hin : o.In text := by
        have := (hrun 0).stays memory hmemory
        rwa [hfound] at this
      have hagrees (depth' : Nat) : (runRule (depth' + 1) r mode c).Below o ∨
          o = .exhausted ∧ ¬depth' ≤ depth := by
        have := (hrun depth').agrees memory hmemory
        rwa [hfound] at this
      obtain ⟨kept, heq, hkept⟩ := recallRule_of_none hfind hfound
      refine ⟨o, kept, heq, ?_, hin, ?_⟩
      · rcases hkept with rfl | ⟨hne, rfl⟩
        · exact hmemory'
        · refine hmemory'.insert hr hc hin fun depth' ↦ ?_
          cases depth' with
          | zero => exact .inl rfl
          | succ depth' => exact (hagrees depth').resolve_right fun h ↦ hne h.1
      · cases depth' with
        | zero => exact .inl (.inl rfl)
        | succ depth' => exact (hagrees depth').imp_right fun h ↦ ⟨h.1, by omega⟩

/-- Where the depth suffices without a memory, reading with one finds the same. -/
theorem recalled_of_runRule {depth : Nat} {r : Rule} (hr : r.isKnown = true) {mode : Mode}
    {c : Cursor} (hc : c.In text) (h : runRule depth r mode c ≠ .exhausted) :
    (Id.run ((recallRule depth r mode c).run {})).1 = runRule depth r mode c := by
  rcases (follows_recallRule depth depth hr mode hc).agrees {} (faithful_empty text) with
    (hexhausted | hsame) | ⟨-, hbeyond⟩
  · exact absurd hexhausted h
  · exact hsame.symm
  · exact absurd (Nat.le_refl depth) hbeyond

theorem in_of_matched {depth : Nat} {r : Rule} (hr : r.isKnown = true) {mode : Mode} {c d : Cursor}
    (hc : c.In text) {t : Tokens} (h : runRule depth r mode c = .matched d t) : d.In text := by
  have hstays := (follows_recallRule depth depth hr mode hc).stays {} (faithful_empty text)
  rw [recalled_of_runRule hr hc (by rw [h]; exact nofun), h] at hstays
  exact hstays

end

/-! Reading a text -/

section

variable {r : Rule} {text : String} {d : Cursor} {t : Tokens}

/-- The cursor at the start of what is read. -/
def startOf (text : String) : Cursor :=
  Cursor.start (Text.expandTabs text.toList)

/-- The depth to which reading goes. -/
def depthFor (text : String) : Nat :=
  depthBound (Text.expandTabs text.toList).length

theorem in_startOf (text : String) : (startOf text).In (Text.expandTabs text.toList) :=
  Cursor.in_start _

theorem readFront_of_matched (hr : r.isKnown = true)
    (h : runRule (depthFor text) r .normal (enter (.rule r) true .normal (startOf text)) =
      .matched d t) : readFront r text = .ok ⟨t, d⟩ := by
  have hin := in_enter (in_startOf text) (.rule r) true .normal
  have hrecalled := recalled_of_runRule hr hin (by rw [h]; exact nofun)
  rw [h] at hrecalled
  unfold depthFor startOf at hrecalled
  unfold readFront
  dsimp only
  rw [hrecalled]

theorem passBlanks_of_rest_nil (hd : d.rest = []) (lead : Lead) (mode : Mode) :
    passBlanks lead mode d = d := by
  obtain ⟨offset, before, rest⟩ := d
  cases hd
  unfold passBlanks
  split_ifs <;> rfl

/-- A match that reaches the end is complete. -/
theorem readAll_of_matched (hr : r.isKnown = true)
    (h : runRule (depthFor text) r .normal (enter (.rule r) true .normal (startOf text)) =
      .matched d t) (hd : d.rest = []) : readAll r text = .ok t := by
  have hrest : (restAfter r d).atEnd = true := by
    obtain ⟨offset, before, rest⟩ := d
    cases hd
    rw [restAfter, passBlanks_of_rest_nil rfl]
    rfl
  have hcomplete : Reading.complete r ⟨t, d⟩ = .ok t := if_pos hrest
  rw [readAll, readFront_of_matched hr h]
  exact hcomplete

theorem readAll_of_faulty (hr : r.isKnown = true) {f : Fault}
    (h : runRule (depthFor text) r .normal (enter (.rule r) true .normal (startOf text)) =
      .faulty f) : readAll r text = .error f := by
  have hin := in_enter (in_startOf text) (.rule r) true .normal
  have hrecalled := recalled_of_runRule hr hin (by rw [h]; exact nofun)
  rw [h] at hrecalled
  unfold depthFor startOf at hrecalled
  unfold readAll readFront
  dsimp only
  rw [hrecalled]
  rfl

theorem readAll_of_failed (hr : r.isKnown = true)
    (h : runRule (depthFor text) r .normal (enter (.rule r) true .normal (startOf text)) =
      .failed) : readAll r text = .error (.noMatch none) := by
  have hin := in_enter (in_startOf text) (.rule r) true .normal
  have hrecalled := recalled_of_runRule hr hin (by rw [h]; exact nofun)
  rw [h] at hrecalled
  unfold depthFor startOf at hrecalled
  unfold readAll readFront
  dsimp only
  rw [hrecalled]
  rfl

theorem findFrom_of_rest_nil {cs : List Char} (hr : r.isKnown = true) {depth : Nat}
    (hin : d.In cs) (hd : d.rest = []) (h : runRule depth r .normal d = .failed) (n : Nat) :
    findFrom r depth n d = ([], none) := by
  cases n with
  | zero => rfl
  | succ n =>
    have hrecalled := recalled_of_runRule hr hin (by rw [h]; exact nofun)
    have hend : d.atEnd = true := by rw [Cursor.atEnd, hd, List.isEmpty_nil]
    rw [findFrom, passBlanks_of_rest_nil hd, hrecalled, h]
    exact if_pos hend

/-- A match of the whole text is all that is found in it, when nothing matches at its end. -/
theorem findAll_of_matched (hr : r.isKnown = true)
    (h : runRule (depthFor text) r .normal (passBlanks r.lead .normal (startOf text)) =
      .matched d t) (hd : d.rest = []) (hoffset : (startOf text).offset < d.offset)
    (hend : runRule (depthFor text) r .normal d = .failed) : findAll r text = ([t], none) := by
  have hin := in_passBlanks (in_startOf text) r.lead .normal
  have hrecalled := recalled_of_runRule hr hin (by rw [h]; exact nofun)
  have hrest := findFrom_of_rest_nil hr (in_of_matched hr hin h) hd hend
    (Text.expandTabs text.toList).length
  rw [h] at hrecalled
  change findFrom r (depthFor text) _ (startOf text) = _
  rw [findFrom, hrecalled]
  dsimp only
  rw [if_pos hoffset, hrest]

end

end VbaTrace.Grammar
