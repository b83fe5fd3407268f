import Mathlib.Tactic.SplitIfs
import VbaTrace.Proofs.Matching

/-!
What the next character decides. Most rules are refused at their first character, and that can be
told from the grammar alone: `Pattern.front` says of a pattern that it is refused where a given
character, or the end of the text, comes next, or that it matches without moving on. The answer holds
of every run of the pattern (`Pattern.front_describes_run`), and so a rule that is refused fails at
every depth from the one on at which this was found (`runRule_of_refuses`).
-/

set_option autoImplicit false

namespace VbaTrace.Grammar

/-! Lexemes -/

/-- A letter of a word stands for a character of the text, in either case. -/
def agrees (w d : Char) : Bool :=
  if d.toNat < 128 then d.toUpper == w.toUpper else Text.upperChar d == [w.toUpper]

/-- The lexeme cannot begin with the next character. -/
def Lexeme.refuses (x : Option Char) : Lexeme → Bool
  | exact (w :: _) => x != some w
  | caseless (w :: _) | keyword (w :: _) => !x.any (agrees w)
  | word set _ | sign set | loneSign set => !x.any set.holds
  | «except» stops | oneExcept stops => x.all stops.contains
  | signedDigits => !x.any fun y ↦ y == '+' || y == '-' || Text.isDigit y
  | quoted quote _ _ => x != some quote
  | exact [] | caseless [] | keyword [] | lineStart | nothing => false

section

variable {c : Cursor}

theorem exactMatch_of_head_ne {w : Char} (h : c.rest.head? ≠ some w) (ws : List Char) :
    exactMatch (w :: ws) c = none := by
  rw [exactMatch]
  split
  · rfl
  · next y _ hrest =>
    have hne : ¬(y == w) = true := by
      intro heq
      rw [hrest, List.head?_cons, eq_of_beq heq] at h
      exact h rfl
    rw [if_neg hne]

theorem caselessMatch_of_not_agrees {w : Char} (h : c.rest.head?.any (agrees w) = false)
    (ws : List Char) : caselessMatch (w :: ws) c = none := by
  rw [caselessMatch]
  split
  · rfl
  · next y _ hrest =>
    rw [hrest, List.head?_cons, Option.any_some] at h
    exact if_neg (Bool.eq_false_iff.mp h)

theorem eq_false_of_head {p : Char → Bool} (h : (!c.rest.head?.any p) = true) {y : Char}
    {ys : List Char} (hrest : c.rest = y :: ys) : p y = false := by
  rwa [hrest, List.head?_cons, Option.any_some, Bool.not_eq_true'] at h

theorem scan_of_refuses {l : Lexeme} (h : l.refuses c.rest.head? = true) : l.scan c = none := by
  unfold Lexeme.scan
  cases l with
  | exact text =>
    cases text with
    | nil => exact nomatch h
    | cons w ws => simp [exactMatch_of_head_ne (bne_iff_ne.mp h)]
  | caseless text =>
    cases text with
    | nil => exact nomatch h
    | cons w ws => simp [caselessMatch_of_not_agrees (Bool.not_eq_true' _ ▸ h)]
  | keyword text =>
    cases text with
    | nil => exact nomatch h
    | cons w ws => simp [caselessMatch_of_not_agrees (Bool.not_eq_true' _ ▸ h)]
  | word set more =>
    dsimp only
    split
    · rfl
    · next y _ hrest =>
      rw [eq_false_of_head h hrest]
      rfl
  | sign set =>
    dsimp only
    split
    · rfl
    · next y _ hrest =>
      rw [eq_false_of_head h hrest]
      rfl
  | loneSign set =>
    dsimp only
    split
    · rfl
    · next y _ hrest =>
      rw [eq_false_of_head h hrest]
      rfl
  | «except» stops =>
    have hstop : c.rest.head?.any (fun y ↦ !stops.contains y) = false := by
      cases hhead : c.rest.head? with
      | none => rfl
      | some y => simpa [Lexeme.refuses, hhead] using h
    dsimp only
    rw [skipWhile_of_head hstop, beq_self_eq_true]
    rfl
  | oneExcept stops =>
    dsimp only
    split
    · rfl
    · next y _ hrest =>
      have hy : stops.contains y = true := by simpa [Lexeme.refuses, hrest] using h
      rw [hy]
      rfl
  | signedDigits =>
    have hnone : c.rest.head?.any (fun y ↦ y == '+' || y == '-' || Text.isDigit y) = false := by
      simpa only [Lexeme.refuses, Bool.not_eq_true'] using h
    have hdigit : c.rest.head?.any Text.isDigit = false := by
      cases hhead : c.rest.head? with
      | none => rfl
      | some y =>
        rw [hhead, Option.any_some, Bool.or_eq_false_iff] at hnone
        exact hnone.2
    dsimp only
    split
    · next hrest => simp [hrest] at hnone
    · next hrest => simp [hrest] at hnone
    · rw [skipWhile_of_head hdigit, beq_self_eq_true]
      rfl
  | quoted quote doubled bare =>
    dsimp only
    split
    · rfl
    · next y _ hrest =>
      have hy : ¬(y == quote) = true := by simpa [Lexeme.refuses, hrest] using h
      rw [if_neg hy]
  | lineStart => exact nomatch h
  | nothing => exact nomatch h

end

/-! Patterns -/

/-- What the next character tells of a pattern: it is refused, it matches without moving on, or
nothing is known. -/
inductive Front
  | refused | passed | unknown
deriving DecidableEq, Repr

namespace Front

/-- The front of a pattern that has to match something, given the front of what it begins with. -/
def leading : Front → Front
  | refused => refused
  | _ => unknown

/-- The front of a pattern that may be left out. -/
def omitted : Front → Front
  | refused => passed
  | _ => unknown

/-- What a front says of an outcome at a cursor. -/
def Describes (c : Cursor) (o : Outcome) : Front → Prop
  | refused => o = .failed
  | passed => ∃ t, o = .matched c t
  | unknown => True

variable {f : Front} {c : Cursor} {o o' : Outcome}

theorem Describes.leading (h : f.Describes c o) (himp : o = .failed → o' = .failed) :
    f.leading.Describes c o' := by
  cases f with
  | refused => exact himp h
  | passed => exact True.intro
  | unknown => exact True.intro

theorem Describes.omitted (h : f.Describes c o) (himp : o = .failed → ∃ t, o' = .matched c t) :
    f.omitted.Describes c o' := by
  cases f with
  | refused => exact himp h
  | passed => exact True.intro
  | unknown => exact True.intro

theorem Describes.mapTokens (h : f.Describes c o) (g : Tokens → Tokens) :
    f.Describes c (o.mapTokens g) := by
  cases f with
  | refused =>
    rw [Describes] at h
    rw [h]
    rfl
  | passed =>
    obtain ⟨t, rfl⟩ := h
    exact ⟨g t, rfl⟩
  | unknown => exact True.intro

end Front

namespace Pattern

/-- What the next character tells, where some rules are known to be refused. -/
def front (refused : Rule → Bool) (x : Option Char) : Pattern → Front
  | lexeme l => if l.refuses x then .refused else .unknown
  | rule r => if refused r then .refused else .unknown
  | seq a b =>
    match a.front refused x with
    | .passed => b.front refused x
    | f => f
  | first a b =>
    match a.front refused x with
    | .refused => b.front refused x
    | f => f
  | longest a b =>
    match a.front refused x with
    | .refused => (b.front refused x).leading
    | _ => .unknown
  | optional p | orBlank p | many p | absent p => (p.front refused x).omitted
  | atLeastOne p | ahead p | build _ p | chain p _ _ _ => (p.front refused x).leading
  | upTo _ => .unknown
  | group p | drop p | joined p | joinedLoosely p | tight p | label _ _ p => p.front refused x

variable {refused : Rule → Bool} {x : Option Char} {call : Rule → Mode → Cursor → Id Outcome}
  {c : Cursor}

theorem front_describes_run (hc : c.At x)
    (hcall : ∀ r mode, refused r = true → call r mode c = .failed) (p : Pattern) (skip : Bool)
    (mode : Mode) : (p.front refused x).Describes c (p.run call skip mode c) := by
  induction p generalizing skip mode with
  | lexeme l =>
    rw [front, Pattern.run, hc.enter]
    split_ifs with hl
    · rw [← hc.head] at hl
      rw [scan_of_refuses hl]
      rfl
    · exact True.intro
  | rule r =>
    rw [front, Pattern.run, hc.enter]
    split_ifs with hr
    · exact hcall r mode hr
    · exact True.intro
  | seq a b iha ihb =>
    have ha : (a.front refused x).Describes c
        (a.run call false mode (if skip then passBlanks a.lead mode c else c)) := by
      rw [hc.skipped]
      exact iha false mode
    rw [front]
    cases hfront : a.front refused x with
    | refused =>
      rw [hfront, Front.Describes] at ha
      rw [Pattern.run, ha]
      rfl
    | passed =>
      rw [hfront] at ha
      obtain ⟨t, ht⟩ := ha
      rw [run_seq_of_matched ht]
      exact (ihb true mode).mapTokens _
    | unknown => exact True.intro
  | first a b iha ihb =>
    have ha := iha true mode
    rw [front, Pattern.run]
    cases hfront : a.front refused x with
    | refused =>
      rw [hfront, Front.Describes] at ha
      rw [ha]
      exact ihb true mode
    | passed =>
      rw [hfront] at ha
      obtain ⟨t, ht⟩ := ha
      rw [ht]
      exact ⟨t, rfl⟩
    | unknown => exact True.intro
  | longest a b iha ihb =>
    have ha := iha true mode.look
    rw [front, Pattern.run]
    cases hfront : a.front refused x with
    | refused =>
      rw [hfront, Front.Describes] at ha
      rw [ha]
      refine (ihb true mode.look).leading fun hb ↦ ?_
      rw [hb]
      rfl
    | passed => exact True.intro
    | unknown => exact True.intro
  | optional p ih =>
    refine (ih false mode).omitted fun hfailed ↦ ⟨.empty, ?_⟩
    rw [Pattern.run, hc.enter, hfailed]
    rfl
  | orBlank p ih =>
    refine (ih false mode).omitted fun hfailed ↦ ⟨.one Value.empty, ?_⟩
    rw [Pattern.run, hc.enter, hfailed]
    rfl
  | many p ih =>
    refine (ih false mode).omitted fun hfailed ↦ ⟨.empty, ?_⟩
    rw [Pattern.run, hc.enter, hfailed]
    rfl
  | atLeastOne p ih =>
    refine (ih false mode).leading fun hfailed ↦ ?_
    rw [Pattern.run, hc.enter, hfailed]
    rfl
  | absent p ih =>
    refine (ih true mode.look).omitted fun hfailed ↦ ⟨.empty, ?_⟩
    rw [Pattern.run, hfailed]
    rfl
  | ahead p ih =>
    refine (ih true mode).leading fun hfailed ↦ ?_
    rw [Pattern.run, hc.enter, hfailed]
    rfl
  | upTo p ih => exact True.intro
  | group p ih => exact (ih skip mode).mapTokens _
  | drop p ih => exact (ih skip mode).mapTokens _
  | joined p ih =>
    rw [front, Pattern.run, hc.skipped]
    exact (ih false mode.tighten).mapTokens _
  | joinedLoosely p ih =>
    rw [front, Pattern.run, hc.skipped]
    exact (ih false mode).mapTokens _
  | tight p ih => exact ih false mode.tighten
  | label name extent p ih => exact (ih skip mode).mapTokens _
  | build b p ih =>
    refine (ih skip mode).leading fun hfailed ↦ ?_
    rw [Pattern.run, hfailed]
    change (if mode.builds then Outcome.failed.built b else .failed) = .failed
    split_ifs <;> rfl
  | chain operand op right b ihoperand =>
    refine (ihoperand true mode).leading fun hfailed ↦ ?_
    rw [Pattern.run, hfailed]
    rfl

end Pattern

/-! Rules -/

/-- The rule is refused where this comes next, as a nesting of so many rules shows. -/
def Rule.refuses (x : Option Char) : Nat → Rule → Bool
  | 0, _ => false
  | depth + 1, r => (Pattern.ofRule r).front (Rule.refuses x depth) x == .refused

theorem runRule_of_refuses {c : Cursor} {x : Option Char} (hc : c.At x) {found depth : Nat}
    {r : Rule} (h : r.refuses x found = true) (hdepth : found ≤ depth) (mode : Mode) :
    runRule depth r mode c = .failed := by
  induction found generalizing depth r mode with
  | zero => exact nomatch h
  | succ found ih =>
    obtain ⟨depth, rfl⟩ := Nat.exists_eq_add_of_le' (Nat.lt_of_lt_of_le found.succ_pos hdepth)
    have hcall (r : Rule) (mode : Mode) (hr : r.refuses x found = true) :
        runRule depth r mode c = .failed := ih hr (Nat.le_of_succ_le_succ hdepth) mode
    have hdescribes := Pattern.front_describes_run hc hcall (Pattern.ofRule r) false mode
    rw [eq_of_beq h] at hdescribes
    exact hdescribes

/-- A pattern whose front is refused fails. -/
theorem Pattern.ends_of_front {c : Cursor} {x : Option Char} (hc : c.At x) {depth : Nat}
    {p : Pattern} (h : p.front (Rule.refuses x depth) x = .refused) (skip : Bool) (mode : Mode) :
    p.Ends depth skip mode c .failed := by
  intro n hn
  have hcall (r : Rule) (mode : Mode) (hr : r.refuses x depth = true) :
      runRule n r mode c = .failed := runRule_of_refuses hc hr hn mode
  have hdescribes := p.front_describes_run hc hcall skip mode
  rw [h] at hdescribes
  exact hdescribes

end VbaTrace.Grammar
