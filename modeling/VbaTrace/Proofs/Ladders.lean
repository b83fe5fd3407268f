import VbaTrace.Proofs.Beginnings
import VbaTrace.Proofs.Recall

/-!
Operator ladders. A rule reads a text as a value behind some other text (`ReadsAt`) when it does so
whatever follows, if that is of some kind; mostly it does not matter what lies before, and one of some
signs, or the end of the text, comes next (`Reads`). A level reads an operand, and what continues it
(`Continues`), as what its rung makes of all operands (`ReadsAt.level`, `Chained`); a level whose sign
cannot come next reads what the level below it reads (`ReadsAt.climb`).

Where two neighbouring levels have the signs of a chain between them, its operands are first grouped
by the sign of the lower level, and then joined by that of the upper one (`Reads.mixed`).
-/

set_option autoImplicit false

namespace VbaTrace.Grammar

open Cursor (between)

/-! What lies ahead -/

/-- After any number of spaces comes one of the signs, or the end of the text. -/
def Ahead (signs rest : List Char) : Prop :=
  ∃ n more, rest = List.replicate n ' ' ++ more ∧ ∀ x ∈ more.head?, x ∈ signs

section

variable {signs after rest : List Char}

theorem Ahead.mono (h : Ahead after rest) (hsubset : after ⊆ signs) : Ahead signs rest := by
  obtain ⟨n, more, hrest, hmore⟩ := h
  exact ⟨n, more, hrest, fun x hx ↦ hsubset (hmore x hx)⟩

theorem ahead_nil (signs : List Char) : Ahead signs [] :=
  ⟨0, [], rfl, nofun⟩

theorem ahead_sign {x : Char} (hx : x ∈ signs) (n : Nat) (rest : List Char) :
    Ahead signs (List.replicate n ' ' ++ x :: rest) :=
  ⟨n, x :: rest, rfl, fun _ hy ↦ Option.mem_some.mp hy ▸ hx⟩

/-- The lexeme passes over blanks, and begins with none of the signs nor at the end. -/
def Lexeme.misses (signs : List Char) (l : Lexeme) : Bool :=
  l.blanks.isSome && l.refuses none && signs.all fun x ↦ isVisible x && l.refuses (some x)

theorem Lexeme.enter_spaces {l : Lexeme} (hl : l.blanks.isSome = true) {front more : List Char}
    (n : Nat) (hmore : ∀ y ∈ more.head?, isVisible y = true) :
    enter (.lexeme l) true .normal (between front (List.replicate n ' ' ++ more)) =
      between (front ++ List.replicate n ' ') more := by
  obtain ⟨b, hb⟩ := Option.isSome_iff_exists.mp hl
  have hlead : (Pattern.lexeme l).lead = ⟨b, true, true⟩ := by rw [Pattern.lead, hb]
  rw [enter, hlead]
  exact Cursor.passBlanks_spaces ⟨b, true, true⟩ rfl n hmore

theorem Lexeme.ends_of_misses {l : Lexeme} (hl : l.misses signs = true) (hrest : Ahead signs rest)
    (depth : Nat) (front : List Char) :
    (Pattern.lexeme l).Ends depth true .normal (between front rest) .failed := by
  obtain ⟨n, more, rfl, hmore⟩ := hrest
  simp only [misses, Bool.and_eq_true, List.all_eq_true] at hl
  obtain ⟨⟨hblanks, hnone⟩, hsigns⟩ := hl
  have hvisible (y : Char) (hy : y ∈ more.head?) : isVisible y = true := (hsigns y (hmore y hy)).1
  have hrefuses : l.refuses (between (front ++ List.replicate n ' ') more).rest.head? = true := by
    change l.refuses more.head? = true
    cases hhead : more.head? with
    | none => exact hnone
    | some y => exact (hsigns y (hmore y hhead)).2
  exact .lexeme_of_none (enter_spaces hblanks n hvisible) (scan_of_refuses hrefuses) depth

/-- A keyword is read in any case in which it is written, with the spaces before it, where nothing
touches it. -/
theorem ends_keyword {word w front rest : List Char} {n : Nat} (hascii : isAscii w = true)
    (hcase : w.map Char.toUpper = word.map Char.toUpper) (hvisible : w.head?.any isVisible = true)
    (hfront : (front ++ List.replicate n ' ').getLast?.any touchesKeyword = false)
    (hrest : rest.head?.any touchesKeyword = false) (depth : Nat) :
    (Pattern.lexeme (.keyword word)).Ends depth true .normal
      (between front (List.replicate n ' ' ++ (w ++ rest)))
      (.matched (between (front ++ List.replicate n ' ' ++ w) rest)
        (.one (.text (String.ofList word)))) := by
  obtain ⟨x, hhead, hx⟩ := (Option.any_eq_true _ _).mp hvisible
  have hmore (y : Char) (hy : y ∈ (w ++ rest).head?) : isVisible y = true := by
    rw [List.head?_append, hhead] at hy
    exact Option.mem_some.mp hy ▸ hx
  exact .lexeme (Lexeme.enter_spaces rfl n hmore) (Cursor.scan_keyword hascii hcase hfront hrest) depth

theorem getLast?_append_spaces (front : List Char) (n : Nat) :
    (front ++ List.replicate (n + 1) ' ').getLast? = some ' ' := by
  rw [List.replicate_succ', ← List.append_assoc, List.getLast?_concat]

/-- A sign of one character is read, with the spaces before it. -/
theorem ends_sign {x : Char} (hx : isVisible x = true) (depth n : Nat) (front rest : List Char) :
    (Pattern.lexeme (.exact [x])).Ends depth true .normal
      (between front (List.replicate n ' ' ++ x :: rest))
      (.matched (between (front ++ List.replicate n ' ' ++ [x]) rest)
        (.one (.text (String.ofList [x])))) := by
  have hvisible (y : Char) (hy : y ∈ (x :: rest).head?) : isVisible y = true :=
    Option.mem_some.mp hy ▸ hx
  exact .lexeme (Lexeme.enter_spaces rfl n hvisible)
    (Cursor.scan_exact (front ++ List.replicate n ' ') [x] rest) depth

end

/-! Rules that read a text -/

/-- Behind some text, the rule reads another one as the value, wherever such a rest follows. -/
def ReadsAt (depth : Nat) (r : Rule) (front : List Char) (next : List Char → Prop)
    (text : List Char) (v : Value) : Prop :=
  ∀ rest, next rest →
    (Pattern.ref r).Ends depth true .normal (between front (text ++ rest))
      (.matched (between (front ++ text) rest) (.one v))

/-- The rule reads the text as the value wherever one of the signs, or the end, comes next. -/
def Reads (depth : Nat) (r : Rule) (signs text : List Char) (v : Value) : Prop :=
  ∀ front, ReadsAt depth r front (Ahead signs) text v

/-- The text begins with a character that is no blank. -/
def startsVisibly (text : List Char) : Bool := text.head?.any isVisible

theorem at_of_startsVisibly {text : List Char} (h : startsVisibly text = true)
    (front rest : List Char) : (between front (text ++ rest)).At text.head? := by
  cases text with
  | nil => exact nomatch h
  | cons x xs => exact ⟨rfl, fun y hy ↦ Option.mem_some.mp hy ▸ h⟩

theorem ReadsAt.mono {depth deeper : Nat} {r : Rule} {front text : List Char}
    {next : List Char → Prop} {v : Value} (h : ReadsAt depth r front next text v)
    (hle : depth ≤ deeper) : ReadsAt deeper r front next text v :=
  fun rest hrest ↦ (h rest hrest).mono hle

/-- Where no blanks come first, it does not matter whether they are passed over. -/
theorem ReadsAt.ends {depth : Nat} {r : Rule} {front text : List Char} {next : List Char → Prop}
    {v : Value} (h : ReadsAt depth r front next text v) (htext : startsVisibly text = true)
    {rest : List Char} (hrest : next rest) (skip : Bool) :
    (Pattern.ref r).Ends depth skip .normal (between front (text ++ rest))
      (.matched (between (front ++ text) rest) (.one v)) := by
  intro n hn
  have hat := at_of_startsVisibly htext front rest
  have hread := h rest hrest n hn
  rw [Pattern.ref, Pattern.run, hat.enter] at hread
  rw [Pattern.ref, Pattern.run, hat.enter, hread]

/-- A rule that passes over blanks itself reads the text behind spaces too. -/
theorem ReadsAt.after_spaces {depth n : Nat} {r : Rule} {front text : List Char}
    {next : List Char → Prop} {v : Value}
    (h : ReadsAt depth r (front ++ List.replicate n ' ') next text v) (hlead : r.lead = .usual)
    (htext : startsVisibly text = true) :
    ReadsAt depth r front next (List.replicate n ' ' ++ text) v := by
  intro rest hrest k hk
  have hat := at_of_startsVisibly htext (front ++ List.replicate n ' ') rest
  have hvisible : ∀ y ∈ (text ++ rest).head?, isVisible y = true := by
    rw [show (text ++ rest).head? = text.head? from hat.head]
    exact hat.visible
  have henter : enter (.rule r) true .normal (between front (List.replicate n ' ' ++ (text ++ rest)))
      = between (front ++ List.replicate n ' ') (text ++ rest) := by
    have hrule : (Pattern.rule r).lead = .usual := hlead
    rw [enter, hrule]
    exact Cursor.passBlanks_spaces .usual rfl n hvisible
  have hread := h rest hrest k hk
  rw [Pattern.ref, Pattern.run, hat.enter] at hread
  rw [Pattern.ref, Pattern.run, List.append_assoc, henter, hread, List.append_assoc]

namespace Reads

variable {depth : Nat} {r : Rule} {signs text : List Char} {v : Value}

theorem mono (h : Reads depth r signs text v) {deeper : Nat} (hle : depth ≤ deeper) :
    Reads deeper r signs text v :=
  fun front ↦ (h front).mono hle

theorem after_spaces (h : Reads depth r signs text v) (hlead : r.lead = .usual)
    (htext : startsVisibly text = true) (n : Nat) :
    Reads depth r signs (List.replicate n ' ' ++ text) v :=
  fun _ ↦ (h _).after_spaces hlead htext

end Reads

/-! Chains -/

/-- The operation on all the values; with one value, this value. -/
def operationOn (op : Operator) (v : Value) : List Value → Value
  | [] => v
  | w :: ws => .node (.operation op (v :: w :: ws))

/-- Signs with an operand each follow from one cursor to another. The token of the sign is `s`. -/
inductive Continues (depth : Nat) (s : String) (sign right : Pattern) :
    Cursor → List Value → Cursor → Prop
  | stop {c : Cursor} (hsign : sign.Ends depth true .normal c .failed) :
    Continues depth s sign right c [] c
  | step {c d e f : Cursor} {v : Value} {vs : List Value}
    (hsign : sign.Ends depth true .normal c (.matched d (.one (.text s))))
    (hright : right.Ends depth true .normal d (.matched e (.one v)))
    (hoffset : c.offset < e.offset) (hlength : e.rest.length < c.rest.length)
    (hmore : Continues depth s sign right e vs f) : Continues depth s sign right c (v :: vs) f

/-- The tokens of signs and operands in turn. -/
def alternating (s : String) (vs : List Value) : List Value :=
  vs.flatMap fun v ↦ [.text s, v]

theorem operandsOf_alternating (s : String) (v : Value) (vs : List Value) :
    operandsOf (v :: alternating s vs) = v :: vs := by
  induction vs generalizing v with
  | nil => rfl
  | cons w ws ih =>
    change v :: operandsOf (w :: alternating s ws) = _
    rw [ih]

/-- What a chain makes of its operands: one operand alone stays as it is, and more of them form a token
list with the signs between them, which the builder gets if there is one. -/
inductive Chained (b : Option Builder) (s : String) (v : Value) : List Value → Value → Prop
  | alone : Chained b s v [] v
  | built {u w : Value} {us : List Value}
    (h : ∀ c, b.elim id Outcome.built
      (.matched c (.one (.tokens (.ofList (v :: alternating s (u :: us)))))) = .matched c (.one w)) :
    Chained b s v (u :: us) w

/-- An operation can be logged, where its builder does that. -/
def CanLog (op : Operator) (operands : List Value) : Prop :=
  (Builder.operation op).isLogged = true → allWritable operands = true

theorem CanLog.of_quiet {op : Operator} (h : (Builder.operation op).isLogged = false)
    (operands : List Value) : CanLog op operands :=
  fun hlogged ↦ Bool.noConfusion (h.symm.trans hlogged)

theorem chained_operation {op : Operator} (s : String) {v : Value} {vs : List Value}
    (hlog : CanLog op (v :: vs)) :
    Chained (some (.operation op)) s v vs (operationOn op v vs) := by
  cases vs with
  | nil => exact .alone
  | cons w ws =>
    refine .built fun c ↦ Outcome.built_of_apply ?_ c
    have hmake : (Builder.operation op).make
        (.one (.tokens (.ofList (v :: alternating s (w :: ws))))) =
        .node (.operation op (v :: w :: ws)) := by
      change Built.node (.operation op (operandsOf (v :: alternating s (w :: ws)))) = _
      rw [operandsOf_alternating]
    cases hlogged : (Builder.operation op).isLogged with
    | false => exact (Builder.apply_of_not_isLogged hlogged _).trans hmake
    | true => exact Builder.apply_node hmake (hlog hlogged)

/-- The operands as a chain without a builder leaves them. -/
def runOf (s : String) (v : Value) : List Value → Value
  | [] => v
  | w :: ws => .tokens (.ofList (v :: alternating s (w :: ws)))

theorem chained_runOf (s : String) (v : Value) (vs : List Value) :
    Chained none s v vs (runOf s v vs) := by
  cases vs with
  | nil => exact .alone
  | cons w ws => exact .built fun _ ↦ rfl

theorem allWritable_alternating {s : String} {vs : List Value}
    (h : ∀ v ∈ vs, v.isWritable = true) : allWritable (alternating s vs) = true := by
  refine allWritable_iff.mpr fun w hw ↦ ?_
  obtain ⟨v, hv, hpair⟩ := List.mem_flatMap.mp hw
  rcases List.mem_cons.mp hpair with rfl | hlast
  · rfl
  · exact List.mem_singleton.mp hlast ▸ h v hv

theorem isWritable_runOf {s : String} {v : Value} {vs : List Value} (hv : v.isWritable = true)
    (hvs : ∀ w ∈ vs, w.isWritable = true) : (runOf s v vs).isWritable = true := by
  cases vs with
  | nil => exact hv
  | cons w ws =>
    have hrest := allWritable_alternating (s := s) hvs
    rw [runOf, Tokens.ofList, Value.isWritable, allWritable, hv, hrest]
    rfl

namespace Continues

variable {depth : Nat} {s : String} {sign right : Pattern} {c d e : Cursor} {vs : List Value}

theorem length_le (h : Continues depth s sign right c vs e) : vs.length ≤ c.rest.length := by
  induction h with
  | stop => exact Nat.zero_le _
  | step _ _ _ hlength _ ih => exact Nat.le_trans (Nat.succ_le_succ ih) hlength

theorem offset_le (h : Continues depth s sign right c vs e) : c.offset ≤ e.offset := by
  induction h with
  | stop => exact Nat.le_refl _
  | step _ _ hoffset _ _ ih => exact Nat.le_of_lt (Nat.lt_of_lt_of_le hoffset ih)

/-- Repeating a step that reads a sign and an operand collects the tokens up to the other cursor. -/
theorem repeated_eq (h : Continues depth s sign right c vs e) {n : Nat} (hn : depth ≤ n)
    {step : Cursor → Id Outcome}
    (hfailed : ∀ c, sign.run (m := Id) (runRule n) true .normal c = .failed → step c = .failed)
    (hmatched : ∀ c d e t u, sign.run (m := Id) (runRule n) true .normal c = .matched d t →
      right.run (m := Id) (runRule n) true .normal d = .matched e u →
        step c = .matched e (t.append u))
    {fuel : Nat} (hfuel : vs.length ≤ fuel) {t : Tokens} {items : List Value}
    (ht : t = .ofList items) :
    repeated step fuel c t = .matched e (.ofList (items ++ alternating s vs)) := by
  induction h generalizing fuel t items with
  | stop hsign =>
    rw [alternating, List.flatMap_nil, List.append_nil]
    cases fuel with
    | zero =>
      rw [repeated, ht]
      rfl
    | succ fuel =>
      rw [repeated, hfailed _ (hsign n hn), ht]
      rfl
  | @step c d e f v vs hsign hright _ _ _ ih =>
    obtain ⟨fuel, rfl⟩ := Nat.exists_eq_add_of_le' (Nat.lt_of_lt_of_le vs.length.succ_pos hfuel)
    have htokens : t.append ((Tokens.one (.text s)).append (.one v)) =
        .ofList (items ++ [.text s, v]) := by
      rw [ht]
      rfl
    have hmore := ih (Nat.le_of_succ_le_succ hfuel) htokens
    rw [List.append_assoc] at hmore
    rw [repeated, hmatched _ _ _ _ _ (hsign n hn) (hright n hn)]
    exact hmore

/-- A chain reads an operand and what continues it as what it makes of all the operands. -/
theorem chain (h : Continues depth s sign right d vs e) {operand : Pattern} {v w : Value}
    {b : Option Builder} (hoperand : operand.Ends depth true .normal c (.matched d (.one v)))
    (hw : Chained b s v vs w) (skip : Bool) :
    (Pattern.chain operand sign right b).Ends depth skip .normal c (.matched e (.one w)) := by
  intro n hn
  have hone : Tokens.one v = .ofList [v] := rfl
  rw [Pattern.run, hoperand n hn]
  dsimp only [bind, pure]
  rw [h.repeated_eq hn ?failed ?matched h.length_le hone]
  case failed =>
    intro c hc
    rw [hc]
  case matched =>
    intro c d e t u hc hd
    rw [hc]
    dsimp only
    rw [hd]
  dsimp only
  cases h with
  | stop =>
    cases hw
    exact if_pos (beq_self_eq_true _)
  | @step _ _ _ _ u us _ _ hoffset _ hmore =>
    have hne : ¬(e.offset == d.offset) = true := by
      rw [beq_iff_eq]
      exact Nat.ne_of_gt (Nat.lt_of_lt_of_le hoffset hmore.offset_le)
    rw [if_neg hne]
    cases hw with
    | built hbuilt =>
      cases b with
      | none => exact hbuilt e
      | some b => exact hbuilt e

end Continues

/-! Levels -/

namespace ReadsAt

variable {depth k : Nat} {l : Ladder} {front text : List Char} {next after : List Char → Prop}
  {v : Value}

/-- The lowest level reads what its items are. -/
theorem item (h : ReadsAt depth l.item front next text v) (htext : startsVisibly text = true) :
    ReadsAt (depth + 1) (.level l 0) front next text v := by
  intro rest hrest
  have hat := at_of_startsVisibly htext front rest
  exact .rule (hat.enter _ _ _) (.first_of_matched (h rest hrest))

/-- A level reads what the level below it reads, together with what continues it. -/
theorem level {right : Nat} {s : String} {sign : Pattern} {b : Option Builder} {tail : List Char}
    {vs : List Value} {w : Value}
    (hpattern : l.pattern (k + 1) = .chain (Pattern.ref (.level l k)) sign
      (Pattern.ref (.level l right)) b)
    (h : ReadsAt depth (.level l k) front next text v) (htext : startsVisibly text = true)
    (hnext : ∀ rest, after rest → next (tail ++ rest))
    (htail : ∀ rest, after rest →
      Continues depth s sign (Pattern.ref (.level l right)) (between (front ++ text) (tail ++ rest))
        vs (between (front ++ text ++ tail) rest))
    (hw : Chained b s v vs w) :
    ReadsAt (depth + 1) (.level l (k + 1)) front after (text ++ tail) w := by
  intro rest hrest
  have hat := at_of_startsVisibly htext front (tail ++ rest)
  have hchain := (htail rest hrest).chain (h (tail ++ rest) (hnext rest hrest)) hw false
  rw [← hpattern] at hchain
  rw [List.append_assoc text, ← List.append_assoc front]
  exact .rule (hat.enter _ _ _) hchain

end ReadsAt

/-- The rung between a level and the next one. Negation, which is none, comes first in the boolean
ladder. -/
def Ladder.rung? (l : Ladder) : Nat → Option Ladder.Rung
  | 0 => if l == .boolean then none else l.rungs[0]?
  | k + 1 => if l == .boolean then l.rungs[k]? else l.rungs[k + 1]?

/-- The sign of a rung cannot come next, where one of these signs or the end does. -/
def Ladder.Rung.isIdle (signs : List Char) (rung : Ladder.Rung) : Bool :=
  match rung.sign with
  | .lexeme s => s.misses signs
  | _ => false

/-- The ladder has a rung here whose sign cannot come next. -/
def Ladder.isIdle (l : Ladder) (signs : List Char) (k : Nat) : Bool :=
  (l.rung? k).any (Ladder.Rung.isIdle signs)

theorem Ladder.pattern_of_rung? {l : Ladder} {k : Nat} {rung : Rung} (h : l.rung? k = some rung) :
    l.pattern (k + 1) = .chain (Pattern.ref (.level l k)) rung.sign
      (Pattern.ref (.level l (if rung.toRight then k + 1 else k))) rung.builder := by
  obtain ⟨sign, toRight, builder⟩ := rung
  unfold pattern
  by_cases hl : (l == boolean) = true
  · cases k with
    | zero =>
      rw [rung?, if_pos hl] at h
      exact nomatch h
    | succ j =>
      rw [rung?, if_pos hl] at h
      simp only [hl, if_true, h]
      cases toRight <;> rfl
  · have hrung : l.rungs[k]? = some ⟨sign, toRight, builder⟩ := by
      cases k <;> rwa [rung?, if_neg hl] at h
    simp only [hl, Bool.false_eq_true, if_false, hrung]
    cases toRight <;> rfl

theorem Ladder.pattern_of_isIdle {l : Ladder} {signs : List Char} {k : Nat}
    (h : l.isIdle signs k = true) :
    ∃ sign right b, l.pattern (k + 1) = .chain (Pattern.ref (.level l k)) (.lexeme sign)
      (Pattern.ref (.level l right)) b ∧ sign.misses signs = true := by
  rw [isIdle, Option.any_eq_true] at h
  obtain ⟨rung, hrung, hidle⟩ := h
  have hpattern := pattern_of_rung? hrung
  unfold Rung.isIdle at hidle
  split at hidle
  · next s hsign =>
    rw [hsign] at hpattern
    exact ⟨s, _, _, hpattern, hidle⟩
  · exact nomatch hidle

/-- Levels whose signs cannot come next read what the level below them reads. -/
theorem ReadsAt.climb {depth k : Nat} {l : Ladder} {front signs text : List Char}
    {next : List Char → Prop} {v : Value} (h : ReadsAt depth (.level l k) front next text v)
    (htext : startsVisibly text = true) (hnext : ∀ rest, next rest → Ahead signs rest) (m : Nat)
    (hidle : ∀ j < m, l.isIdle signs (k + j) = true) :
    ReadsAt (depth + m) (.level l (k + m)) front next text v := by
  induction m with
  | zero => exact h
  | succ m ih =>
    have hbelow := ih fun j hj ↦ hidle j (Nat.lt_succ_of_lt hj)
    obtain ⟨sign, right, b, hpattern, hmisses⟩ :=
      Ladder.pattern_of_isIdle (hidle m (Nat.lt_succ_self m))
    have hsame (rest : List Char) (hrest : next rest) : next ([] ++ rest) := hrest
    have htail (rest : List Char) (hrest : next rest) :
        Continues (depth + m) "" (.lexeme sign) (Pattern.ref (.level l right))
          (between (front ++ text) ([] ++ rest)) [] (between (front ++ text ++ []) rest) := by
      rw [List.append_nil]
      exact .stop (Lexeme.ends_of_misses hmisses (hnext rest hrest) _ _)
    have hlevel := hbelow.level hpattern htext hsame htail .alone
    rw [List.append_nil] at hlevel
    exact hlevel

namespace Reads

variable {depth k : Nat} {l : Ladder} {signs text : List Char} {v : Value}

theorem item (h : Reads depth l.item signs text v) (htext : startsVisibly text = true) :
    Reads (depth + 1) (.level l 0) signs text v :=
  fun front ↦ (h front).item htext

theorem climb (h : Reads depth (.level l k) signs text v) (htext : startsVisibly text = true)
    (m : Nat) (hidle : ∀ j < m, l.isIdle signs (k + j) = true) :
    Reads (depth + m) (.level l (k + m)) signs text v :=
  fun front ↦ (h front).climb htext (fun _ hrest ↦ hrest) m hidle

end Reads

/-! Chains of signs and operands -/

/-- A sign and the operand after it, with the numbers of spaces around the sign. -/
structure Joint where
  sign : Char
  before : Nat
  behind : Nat
  operand : List Char
  value : Value

def Joint.text (j : Joint) : List Char :=
  List.replicate j.before ' ' ++ j.sign :: (List.replicate j.behind ' ' ++ j.operand)

namespace Joint

/-- The text of a chain behind its first operand. -/
def texts (js : List Joint) : List Char := js.flatMap text

theorem texts_cons (j : Joint) (js : List Joint) : texts (j :: js) = j.text ++ texts js := rfl

theorem length_text_pos (j : Joint) : 0 < j.text.length := by
  rw [text, List.length_append, List.length_cons]
  omega

/-- The operand can be read by a rule, wherever one of the signs comes next. -/
structure IsRead (depth : Nat) (r : Rule) (signs : List Char) (j : Joint) : Prop where
  starts : startsVisibly j.operand = true
  reads : Reads depth r signs j.operand j.value

variable {depth : Nat} {r : Rule} {signs after : List Char}

theorem ahead_texts {js : List Joint} (hsigns : ∀ j ∈ js, j.sign ∈ signs) (hafter : after ⊆ signs)
    {rest : List Char} (hrest : Ahead after rest) : Ahead signs (texts js ++ rest) := by
  cases js with
  | nil => exact hrest.mono hafter
  | cons j js =>
    rw [texts_cons, text, List.append_assoc, List.append_assoc, List.cons_append]
    exact ahead_sign (hsigns j List.mem_cons_self) _ _

/-- Joints of one sign continue a chain up to where this sign cannot come next. -/
theorem continues_texts {x : Char} (hx : isVisible x = true) (hlead : r.lead = .usual)
    (hmem : x ∈ signs) (hafter : after ⊆ signs) (hmisses : (Lexeme.exact [x]).misses after = true)
    {js : List Joint} (hjs : ∀ j ∈ js, j.sign = x ∧ j.IsRead depth r signs) (front : List Char)
    {rest : List Char} (hrest : Ahead after rest) :
    Continues depth (String.ofList [x]) (.lexeme (.exact [x])) (Pattern.ref r)
      (between front (texts js ++ rest)) (js.map value) (between (front ++ texts js) rest) := by
  induction js generalizing front with
  | nil =>
    rw [texts, List.flatMap_nil, List.append_nil]
    exact .stop (Lexeme.ends_of_misses hmisses hrest depth front)
  | cons j js ih =>
    obtain ⟨hsign, hread⟩ := hjs j List.mem_cons_self
    have hmore (i : Joint) (hi : i ∈ js) := hjs i (List.mem_cons_of_mem j hi)
    have hnext : Ahead signs (texts js ++ rest) :=
      ahead_texts (fun i hi ↦ (hmore i hi).1 ▸ hmem) hafter hrest
    have hoperand := hread.reads.after_spaces hlead hread.starts j.behind
      (front ++ List.replicate j.before ' ' ++ [x]) (texts js ++ rest) hnext
    have htail := ih hmore (front ++ j.text)
    have hassoc : texts (j :: js) ++ rest = List.replicate j.before ' ' ++
        x :: (List.replicate j.behind ' ' ++ j.operand ++ (texts js ++ rest)) := by
      simp [texts_cons, text, hsign]
    have hfront : front ++ List.replicate j.before ' ' ++ [x] ++
        (List.replicate j.behind ' ' ++ j.operand) = front ++ j.text := by
      simp [text, hsign]
    rw [hfront] at hoperand
    rw [hassoc, texts_cons, ← List.append_assoc front]
    refine .step (ends_sign hx depth j.before front _) hoperand ?_ ?_ htail
    · rw [Cursor.between_offset, Cursor.between_offset, List.length_append]
      exact Nat.lt_add_of_pos_right j.length_text_pos
    · simp only [Cursor.between_rest, List.length_append, List.length_cons]
      omega

end Joint

/-- A level reads a chain of its sign over operands of the level below. -/
theorem Reads.joints {depth k : Nat} {l : Ladder} {x : Char} {after text : List Char} {v : Value}
    {op : Operator}
    (hpattern : l.pattern (k + 1) = .chain (Pattern.ref (.level l k)) (.lexeme (.exact [x]))
      (Pattern.ref (.level l k)) (some (.operation op)))
    (hx : isVisible x = true) (hmisses : (Lexeme.exact [x]).misses after = true)
    (h : Reads depth (.level l k) (x :: after) text v) (htext : startsVisibly text = true)
    {js : List Joint} (hjs : ∀ j ∈ js, j.sign = x ∧ j.IsRead depth (.level l k) (x :: after))
    (hlog : CanLog op (v :: js.map Joint.value)) :
    Reads (depth + 1) (.level l (k + 1)) after (text ++ Joint.texts js)
      (operationOn op v (js.map Joint.value)) := by
  have hsubset : after ⊆ x :: after := List.subset_cons_self x after
  have hahead (rest : List Char) (hrest : Ahead after rest) :
      Ahead (x :: after) (Joint.texts js ++ rest) :=
    Joint.ahead_texts (fun j hj ↦ (hjs j hj).1 ▸ List.mem_cons_self) hsubset hrest
  exact fun front ↦ (h front).level hpattern htext hahead (fun rest hrest ↦
    Joint.continues_texts hx rfl List.mem_cons_self hsubset hmisses hjs (front ++ text) hrest)
    (chained_operation _ hlog)

/-! Two signs -/

namespace Joint

/-- The joints that continue the first group of a chain, and the further groups, each as one joint
with the group for its operand. A group begins at every joint with the looser sign. -/
def grouped (loose : Char) (op : Operator) : List Joint → List Joint × List Joint
  | [] => ([], [])
  | j :: js =>
    let (same, later) := grouped loose op js
    if j.sign == loose then
      ([], { j with
        operand := j.operand ++ texts same
        value := operationOn op j.value (same.map value) } :: later)
    else (j :: same, later)

theorem texts_grouped (loose : Char) (op : Operator) (js : List Joint) :
    texts js = texts (grouped loose op js).1 ++ texts (grouped loose op js).2 := by
  induction js with
  | nil => rfl
  | cons j js ih =>
    rw [grouped, texts_cons, ih]
    dsimp only
    split_ifs
    · simp [texts, text]
    · simp [texts]

theorem startsVisibly_append {text : List Char} (h : startsVisibly text = true)
    (more : List Char) : startsVisibly (text ++ more) = true := by
  cases text with
  | nil => exact nomatch h
  | cons x xs => exact h

/-- The first group has the tighter sign only, and the level above reads the later groups. -/
theorem isRead_grouped {depth k : Nat} {l : Ladder} {x y : Char} {after : List Char} {op : Operator}
    (hpattern : l.pattern (k + 1) = .chain (Pattern.ref (.level l k)) (.lexeme (.exact [x]))
      (Pattern.ref (.level l k)) (some (.operation op)))
    (hquiet : (Builder.operation op).isLogged = false) (hx : isVisible x = true)
    (hmisses : (Lexeme.exact [x]).misses (y :: after) = true) {js : List Joint}
    (hjs : ∀ j ∈ js, (j.sign = x ∨ j.sign = y) ∧ j.IsRead depth (.level l k) (x :: y :: after)) :
    (∀ j ∈ (grouped y op js).1, j.sign = x ∧ j.IsRead depth (.level l k) (x :: y :: after)) ∧
      ∀ j ∈ (grouped y op js).2,
        j.sign = y ∧ j.IsRead (depth + 1) (.level l (k + 1)) (y :: after) := by
  induction js with
  | nil => exact ⟨nofun, nofun⟩
  | cons j js ih =>
    obtain ⟨hsign, hread⟩ := hjs j List.mem_cons_self
    obtain ⟨hsame, hlater⟩ := ih fun i hi ↦ hjs i (List.mem_cons_of_mem j hi)
    rw [grouped]
    dsimp only
    split_ifs with hloose
    · have hgroup := hread.reads.joints hpattern hx hmisses hread.starts hsame (.of_quiet hquiet _)
      refine ⟨nofun, List.forall_mem_cons.mpr ⟨⟨eq_of_beq hloose, ?_, hgroup⟩, hlater⟩⟩
      exact startsVisibly_append hread.starts _
    · have htight : j.sign = x := hsign.resolve_right fun heq ↦ hloose (beq_iff_eq.mpr heq)
      exact ⟨List.forall_mem_cons.mpr ⟨⟨htight, hread⟩, hsame⟩, hlater⟩

end Joint

/-- Two levels read a chain of their signs in groups of the lower one. -/
theorem Reads.mixed {depth k : Nat} {l : Ladder} {x y : Char} {after text : List Char} {v : Value}
    {tight loose : Operator}
    (htight : l.pattern (k + 1) = .chain (Pattern.ref (.level l k)) (.lexeme (.exact [x]))
      (Pattern.ref (.level l k)) (some (.operation tight)))
    (hloose : l.pattern (k + 2) = .chain (Pattern.ref (.level l (k + 1))) (.lexeme (.exact [y]))
      (Pattern.ref (.level l (k + 1))) (some (.operation loose)))
    (hquiet : (Builder.operation tight).isLogged = false)
    (hquiet' : (Builder.operation loose).isLogged = false)
    (hx : isVisible x = true) (hy : isVisible y = true)
    (hmissx : (Lexeme.exact [x]).misses (y :: after) = true)
    (hmissy : (Lexeme.exact [y]).misses after = true)
    (h : Reads depth (.level l k) (x :: y :: after) text v) (htext : startsVisibly text = true)
    {js : List Joint}
    (hjs : ∀ j ∈ js, (j.sign = x ∨ j.sign = y) ∧ j.IsRead depth (.level l k) (x :: y :: after)) :
    Reads (depth + 2) (.level l (k + 2)) after (text ++ Joint.texts js)
      (operationOn loose (operationOn tight v ((Joint.grouped y tight js).1.map Joint.value))
        ((Joint.grouped y tight js).2.map Joint.value)) := by
  obtain ⟨hsame, hlater⟩ := Joint.isRead_grouped htight hquiet hx hmissx hjs
  have hfirst := h.joints htight hx hmissx htext hsame (.of_quiet hquiet _)
  have hall := hfirst.joints hloose hy hmissy (Joint.startsVisibly_append htext _) hlater
    (.of_quiet hquiet' _)
  rw [Joint.texts_grouped y tight js, ← List.append_assoc]
  exact hall

/-! Whole texts -/

theorem tab_not_mem_spaces (n : Nat) : '\t' ∉ List.replicate n ' ' :=
  fun h ↦ absurd (List.eq_of_mem_replicate h) (by decide)

theorem Joint.tab_not_mem_texts {js : List Joint}
    (h : ∀ j ∈ js, j.sign ≠ '\t' ∧ '\t' ∉ j.operand) : '\t' ∉ texts js := by
  intro hmem
  obtain ⟨j, hj, htext⟩ := List.mem_flatMap.mp hmem
  obtain ⟨hsign, hoperand⟩ := h j hj
  rw [text, List.mem_append, List.mem_cons, List.mem_append] at htext
  rcases htext with hspace | heq | hspace | hmem
  · exact tab_not_mem_spaces _ hspace
  · exact hsign heq.symm
  · exact tab_not_mem_spaces _ hspace
  · exact hoperand hmem

/-- A text without tabs is read as it stands. -/
theorem expandTabs_of_not_mem {text : List Char} (h : '\t' ∉ text) : Text.expandTabs text = text := by
  suffices hfrom : ∀ column, Text.expandTabsFrom column text = text from hfrom 0
  induction text with
  | nil => exact fun _ ↦ rfl
  | cons x xs ih =>
    intro column
    have hx : ¬(x == '\t') = true := fun heq ↦ h (eq_of_beq heq ▸ List.mem_cons_self)
    have hxs := ih fun hmem ↦ h (List.mem_cons_of_mem x hmem)
    rw [Text.expandTabsFrom, if_neg hx]
    split_ifs <;> rw [hxs]

section

variable {text : List Char} (htabs : '\t' ∉ text)
include htabs

theorem startOf_ofList : startOf (String.ofList text) = between [] text := by
  rw [startOf, String.toList_ofList, expandTabs_of_not_mem htabs]
  rfl

theorem depthFor_ofList : depthFor (String.ofList text) = depthBound text.length := by
  rw [depthFor, String.toList_ofList, expandTabs_of_not_mem htabs]

/-- The outcome of a rule from the start of the text. -/
theorem runRule_of_ends {depth : Nat} {r : Rule} {o : Outcome}
    (h : (Pattern.ref r).Ends depth true .normal (between [] text) o)
    (hdepth : depth ≤ depthBound text.length) :
    runRule (depthFor (String.ofList text)) r .normal
      (enter (.rule r) true .normal (startOf (String.ofList text))) = o := by
  have hread := h (depthBound text.length) hdepth
  rw [← startOf_ofList htabs, ← depthFor_ofList htabs] at hread
  exact hread

end

namespace ReadsAt

variable {depth : Nat} {r : Rule} {next : List Char → Prop} {text : List Char} {v : Value}
  (h : ReadsAt depth r [] next text v) (hnil : next []) (htabs : '\t' ∉ text)
  (hdepth : depth ≤ depthBound text.length)
include h hnil htabs hdepth

/-- The reading of the rule from the start of the text. -/
theorem runRule_eq :
    runRule (depthFor (String.ofList text)) r .normal
        (enter (.rule r) true .normal (startOf (String.ofList text))) =
      .matched (between text []) (.one v) := by
  have hread := h [] hnil
  rw [List.append_nil, List.nil_append] at hread
  exact runRule_of_ends htabs hread hdepth

/-- A text that a rule reads is read as a whole. -/
theorem readAll_eq (hr : r.isKnown = true) : readAll r (String.ofList text) = .ok (.one v) :=
  readAll_of_matched hr (h.runRule_eq hnil htabs hdepth) rfl

end ReadsAt

namespace Reads

variable {depth : Nat} {r : Rule} {text : List Char} {v : Value}

/-- A level below the top, where no further sign of its ladder can come next, gives what the top
gives. -/
theorem top {l : Ladder} {k : Nat} {signs : List Char} (h : Reads depth (.level l k) signs text v)
    (htext : startsVisibly text = true) (hk : k ≤ l.height)
    (hidle : ∀ j < l.height - k, l.isIdle signs (k + j) = true) (front : List Char)
    {rest : List Char} (hrest : Ahead signs rest) :
    (Pattern.top l).Ends (depth + (l.height - k)) false .normal (between front (text ++ rest))
      (.matched (between (front ++ text) rest) (.one v)) := by
  have hread := h.climb htext (l.height - k) hidle front
  rw [Nat.add_sub_cancel' hk] at hread
  exact hread.ends htext hrest false

theorem expression {k : Nat} (h : Reads depth (.level .full k) [] text v)
    (htext : startsVisibly text = true) (hk : k ≤ Ladder.full.height) :
    Reads (depth + (Ladder.full.height - k) + 1) .expression [] text v := by
  intro front rest hrest
  have hidle : ∀ j < Ladder.full.height, Ladder.full.isIdle [] j = true := by decide
  have htop := h.top htext hk (fun j hj ↦ hidle (k + j) (by omega)) front hrest
  exact .rule ((at_of_startsVisibly htext front rest).enter _ _ _) (.build rfl htop rfl)

theorem exprConst {k : Nat} {signs : List Char} (h : Reads depth (.level .constant k) signs text v)
    (htext : startsVisibly text = true) (hk : k ≤ Ladder.constant.height)
    (hidle : ∀ j < Ladder.constant.height - k, Ladder.constant.isIdle signs (k + j) = true) :
    Reads (depth + (Ladder.constant.height - k) + 1) .exprConst signs text v := by
  intro front rest hrest
  exact .rule ((at_of_startsVisibly htext front rest).enter _ _ _) (h.top htext hk hidle front hrest)

section

variable (h : Reads depth r [] text v) (hr : r.isKnown = true) (htabs : '\t' ∉ text)
  (hdepth : depth ≤ depthBound text.length)
include h htabs hdepth hr

theorem readAll_eq : readAll r (String.ofList text) = .ok (.one v) :=
  (h []).readAll_eq (ahead_nil []) htabs hdepth hr

/-- Such a text is all that is found in it, if the rule needs more than the end of a text. -/
theorem findAll_eq (htext : startsVisibly text = true) {found : Nat}
    (hend : r.refuses none found = true) (hfound : found ≤ depthBound text.length) :
    findAll r (String.ofList text) = ([.one v], none) := by
  have hstart : (startOf (String.ofList text)).At text.head? := by
    have hat := at_of_startsVisibly htext [] []
    rwa [List.append_nil, ← startOf_ofList htabs] at hat
  have hread := (h []).runRule_eq (ahead_nil []) htabs hdepth
  rw [hstart.enter, ← hstart.passBlanks r.lead .normal] at hread
  have hoffset : (startOf (String.ofList text)).offset < (between text []).offset := by
    rw [startOf_ofList htabs]
    cases text with
    | nil => exact nomatch htext
    | cons x xs => exact Nat.zero_lt_succ xs.length
  have hat : (between text []).At none := ⟨rfl, nofun⟩
  rw [← depthFor_ofList htabs] at hfound
  exact findAll_of_matched hr hread rfl hoffset (runRule_of_refuses hat hend hfound .normal)

end

end Reads

end VbaTrace.Grammar
