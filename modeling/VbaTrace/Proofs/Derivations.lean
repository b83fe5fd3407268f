import VbaTrace.Proofs.Reading

/-!
Which tokens a match can have. `Derives p t` says so from the pattern alone, whatever the text is and
whatever was remembered: it has a rule for each kind of pattern, and the tokens of a rule of the
grammar are those of its pattern. Every match for which the builders ran has tokens that are derived
from its pattern (`Pattern.isGrounded`, `grounded_recallRule`), also when it was remembered, because
the memory holds nothing else (`RemembersDerived`). What all readings of a pattern have in common is
then shown by going through its derivations (`derives_of_matched`).
-/

set_option autoImplicit false

namespace VbaTrace

/-- The tokens, followed by those of more matches. -/
def Tokens.followedBy (t : Tokens) (us : List Tokens) : Tokens :=
  us.foldl Tokens.append t

namespace Grammar

/-- The tokens that a match of a pattern can have when its builders run. -/
inductive Derives : Pattern → Tokens → Prop
  | lexeme {l : Lexeme} {c d : Cursor} {t : Tokens} :
    Outcome.ofLexeme (l.scan c) = .matched d t → Derives (.lexeme l) t
  | rule {r : Rule} {t : Tokens} : Derives (Pattern.ofRule r) t → Derives (.rule r) t
  | seq {a b : Pattern} {t u : Tokens} : Derives a t → Derives b u →
    Derives (.seq a b) (t.append u)
  | firstLeft {a b : Pattern} {t : Tokens} : Derives a t → Derives (.first a b) t
  | firstRight {a b : Pattern} {t : Tokens} : Derives b t → Derives (.first a b) t
  | longestLeft {a b : Pattern} {t : Tokens} : Derives a t → Derives (.longest a b) t
  | longestRight {a b : Pattern} {t : Tokens} : Derives b t → Derives (.longest a b) t
  | omitted {p : Pattern} : Derives (.optional p) .empty
  | present {p : Pattern} {t : Tokens} : Derives p t → Derives (.optional p) t
  | blank {p : Pattern} : Derives (.orBlank p) (.one Value.empty)
  | unblank {p : Pattern} {t : Tokens} : Derives p t → Derives (.orBlank p) t
  | manyNone {p : Pattern} : Derives (.many p) .empty
  | many {p : Pattern} {t : Tokens} {us : List Tokens} : Derives p t → (∀ u ∈ us, Derives p u) →
    Derives (.many p) (t.followedBy us)
  | atLeastOne {p : Pattern} {t : Tokens} {us : List Tokens} : Derives p t →
    (∀ u ∈ us, Derives p u) → Derives (.atLeastOne p) (t.followedBy us)
  | absent {p : Pattern} : Derives (.absent p) .empty
  | ahead {p : Pattern} : Derives (.ahead p) .empty
  | upTo {p : Pattern} (s : String) : Derives (.upTo p) (.one (.text s))
  | group {p : Pattern} {t : Tokens} : Derives p t → Derives (.group p) (.one (.tokens t))
  | drop {p : Pattern} : Derives (.drop p) .empty
  | joined {p : Pattern} (s : String) : Derives (.joined p) (.one (.text s))
  | joinedLoosely {p : Pattern} (s : String) : Derives (.joinedLoosely p) (.one (.text s))
  | tight {p : Pattern} {t : Tokens} : Derives p t → Derives (.tight p) t
  | label {name : String} {extent : Extent} {p : Pattern} {t : Tokens} : Derives p t →
    Derives (.label name extent p) (labelled name extent t)
  | build {b : Builder} {p : Pattern} {t : Tokens} {vs : List Value} : Derives p t →
    b.apply t = .values vs → Derives (.build b p) (.ofList vs)
  /-- A chain without an operator. -/
  | operand {operand op right : Pattern} {b : Option Builder} {t : Tokens} : Derives operand t →
    Derives (.chain operand op right b) t
  | chain {operand op right : Pattern} {t : Tokens} {us : List Tokens} : Derives operand t →
    (∀ u ∈ us, Derives (.seq op right) u) →
    Derives (.chain operand op right none) (.one (.tokens (t.followedBy us)))
  | builtChain {operand op right : Pattern} {b : Builder} {t : Tokens} {us : List Tokens}
      {vs : List Value} : Derives operand t → (∀ u ∈ us, Derives (.seq op right) u) →
    b.apply (.one (.tokens (t.followedBy us))) = .values vs →
    Derives (.chain operand op right (some b)) (.ofList vs)

/-! Outcomes -/

/-- The tokens of a match for which the builders ran are as stated. -/
def Outcome.Satisfies (builds : Bool) (P : Tokens → Prop) : Outcome → Prop
  | .matched _ t => builds = true → P t
  | .failed | .faulty _ | .exhausted => True

namespace Outcome

variable {builds : Bool} {P Q : Tokens → Prop} {o : Outcome}

theorem satisfies_of_not (h : ¬builds = true) (o : Outcome) : o.Satisfies builds P := by
  cases o with
  | matched => exact fun hbuilds ↦ absurd hbuilds h
  | _ => exact True.intro

theorem Satisfies.mapTokens (ho : o.Satisfies builds P) {f : Tokens → Tokens}
    (hf : ∀ t, P t → Q (f t)) : (o.mapTokens f).Satisfies builds Q := by
  cases o with
  | matched => exact fun hbuilds ↦ hf _ (ho hbuilds)
  | _ => exact True.intro

theorem Satisfies.imp (ho : o.Satisfies builds P) (h : ∀ t, P t → Q t) : o.Satisfies builds Q := by
  cases o with
  | matched => exact fun hbuilds ↦ h _ (ho hbuilds)
  | _ => exact True.intro

theorem Satisfies.built (ho : o.Satisfies builds P) {b : Builder}
    (hb : ∀ t vs, P t → b.apply t = .values vs → Q (.ofList vs)) :
    (if builds then o.built b else o).Satisfies builds Q := by
  split
  · next hbuilds =>
    cases o with
    | matched d t =>
      unfold Outcome.built
      dsimp only
      split
      · next vs hvs => exact fun _ ↦ hb t vs (ho hbuilds) hvs
      · exact True.intro
      · exact True.intro
    | _ => exact True.intro
  · next hbuilds => exact satisfies_of_not hbuilds o

end Outcome

/-! Computations with a memory -/

/-- What is remembered for a rule is derived from it. -/
def RemembersDerived (memory : Memory) : Prop :=
  ∀ (r : Rule) (mode : Mode) (c : Cursor) (o : Outcome), r.isKnown = true →
    memory[memoryKey r mode c]? = some o → o.Satisfies mode.builds (Derives (.rule r))

/-- The result is as stated, and the memory keeps to what is derived. -/
def Grounded {α : Type} (x : StateM Memory α) (Q : α → Prop) : Prop :=
  ∀ memory : Memory, RemembersDerived memory →
    Q (Id.run (x.run memory)).1 ∧ RemembersDerived (Id.run (x.run memory)).2

namespace Grounded

variable {α β : Type} {x : StateM Memory α} {P : α → Prop} {Q : β → Prop}

theorem pure {a : α} (ha : P a) : Grounded (Pure.pure a) P :=
  fun _ hmemory ↦ ⟨ha, hmemory⟩

theorem bind (hx : Grounded x P) {f : α → StateM Memory β} (hf : ∀ a, P a → Grounded (f a) Q) :
    Grounded (x >>= f) Q := by
  intro memory hmemory
  obtain ⟨ha, hmemory'⟩ := hx memory hmemory
  exact hf _ ha _ hmemory'

theorem imp (hx : Grounded x P) {P' : α → Prop} (h : ∀ a, P a → P' a) : Grounded x P' :=
  fun memory hmemory ↦ ⟨h _ (hx memory hmemory).1, (hx memory hmemory).2⟩

theorem get : Grounded MonadState.get RemembersDerived :=
  fun _ hmemory ↦ ⟨hmemory, hmemory⟩

end Grounded

section

variable {builds : Bool} {P : Tokens → Prop}

theorem grounded_repeated {step : Cursor → StateM Memory Outcome}
    (hstep : ∀ c, Grounded (step c) (Outcome.Satisfies builds P)) (n : Nat) (c : Cursor)
    (t : Tokens) : Grounded (repeated step n c t)
      (Outcome.Satisfies builds fun w ↦ ∃ us, (∀ u ∈ us, P u) ∧ w = t.followedBy us) := by
  induction n generalizing c t with
  | zero => exact .pure fun _ ↦ ⟨[], nofun, rfl⟩
  | succ n ih =>
    rw [repeated]
    refine .bind (hstep c) fun o ho ↦ ?_
    cases o with
    | matched d u =>
      refine (ih d (t.append u)).imp fun o' ho' ↦ ?_
      cases o' with
      | matched e w =>
        intro hbuilds
        obtain ⟨us, hus, rfl⟩ := ho' hbuilds
        exact ⟨u :: us, List.forall_mem_cons.mpr ⟨ho hbuilds, hus⟩, rfl⟩
      | _ => exact True.intro
    | failed => exact .pure fun _ ↦ ⟨[], nofun, rfl⟩
    | _ => exact .pure True.intro

theorem grounded_searched {stop : Cursor → StateM Memory Outcome}
    (hstop : ∀ c, Grounded (stop c) fun _ ↦ True) (hP : ∀ s, P (.one (.text s)))
    (start : Cursor) (n : Nat) (c : Cursor) :
    Grounded (searched stop start n c) (Outcome.Satisfies builds P) := by
  induction n generalizing c with
  | zero => exact .pure True.intro
  | succ n ih =>
    rw [searched]
    refine .bind (hstop c) fun o _ ↦ ?_
    cases o with
    | matched d u => exact .pure fun _ ↦ hP _
    | failed =>
      dsimp only
      split
      · exact .pure True.intro
      · exact ih c.step
    | _ => exact .pure True.intro

theorem grounded_preferred {longer shorter : StateM Memory Outcome}
    (hlonger : Grounded longer (Outcome.Satisfies builds P))
    (hshorter : Grounded shorter (Outcome.Satisfies builds P)) (longerEnd shorterEnd : Nat) :
    Grounded (preferred longer shorter longerEnd shorterEnd) (Outcome.Satisfies builds P) := by
  unfold preferred
  refine .bind hlonger fun o ho ↦ ?_
  cases o with
  | matched c t =>
    dsimp only
    split
    · exact .pure ho
    · refine .bind hshorter fun o' ho' ↦ ?_
      cases o' with
      | matched d u =>
        dsimp only
        split
        · exact .pure ho'
        · exact .pure ho
      | failed => exact .pure ho
      | _ => exact .pure True.intro
  | failed => exact hshorter
  | _ => exact .pure True.intro

end

/-! Patterns -/

section

variable {call : Rule → Mode → Cursor → StateM Memory Outcome}

/-- Each match of a pattern has tokens that are derived from it. -/
def Pattern.IsGrounded (call : Rule → Mode → Cursor → StateM Memory Outcome) (p : Pattern) : Prop :=
  ∀ (skip : Bool) (mode : Mode) (c : Cursor),
    Grounded (p.run call skip mode c) (Outcome.Satisfies mode.builds (Derives p))

theorem isGrounded_longest {a b : Pattern} (ha : a.IsGrounded call) (hb : b.IsGrounded call) :
    (Pattern.longest a b).IsGrounded call := by
  intro skip mode c
  have hleft := (ha true mode c).imp fun _ ho ↦ ho.imp fun _ ↦ Derives.longestLeft (b := b)
  have hright := (hb true mode c).imp fun _ ho ↦ ho.imp fun _ ↦ Derives.longestRight (a := a)
  rw [Pattern.run]
  refine .bind (ha true mode.look c) fun x _ ↦ .bind (hb true mode.look c) fun y _ ↦ ?_
  cases x with
  | matched d t =>
    cases y with
    | matched e u =>
      dsimp only
      split
      · split
        · exact grounded_preferred hright hleft e.offset d.offset
        · exact grounded_preferred hleft hright d.offset e.offset
      · next hbuilds => exact .pure (Outcome.satisfies_of_not hbuilds _)
    | failed =>
      dsimp only
      split
      · exact hleft
      · next hbuilds => exact .pure (Outcome.satisfies_of_not hbuilds _)
    | _ => exact .pure True.intro
  | failed =>
    cases y with
    | matched e u =>
      dsimp only
      split
      · exact hright
      · next hbuilds => exact .pure (Outcome.satisfies_of_not hbuilds _)
    | _ => exact .pure True.intro
  | _ => cases y <;> exact .pure True.intro

theorem isGrounded_chain {operand op right : Pattern} (hoperand : operand.IsGrounded call)
    (hop : op.IsGrounded call) (hright : right.IsGrounded call) (b : Option Builder) :
    (Pattern.chain operand op right b).IsGrounded call := by
  intro skip mode c
  rw [Pattern.run]
  refine .bind (hoperand true mode c) fun o ho ↦ ?_
  cases o with
  | matched d t =>
    extract_lets tail
    have htail (e : Cursor) : Grounded (tail e)
        (Outcome.Satisfies mode.builds (Derives (.seq op right))) := by
      refine .bind (hop true mode e) fun o ho ↦ ?_
      cases o with
      | matched e₁ u =>
        refine .bind (hright true mode e₁) fun o' ho' ↦ ?_
        cases o' with
        | matched e₂ v => exact .pure fun hbuilds ↦ .seq (ho hbuilds) (ho' hbuilds)
        | _ => exact .pure True.intro
      | _ => exact .pure True.intro
    refine .bind (grounded_repeated htail _ d t) fun o' ho' ↦ ?_
    cases o' with
    | matched e u =>
      dsimp only
      split
      · exact .pure fun hbuilds ↦ .operand (ho hbuilds)
      · have hlist : (Outcome.matched e (.one (.tokens u))).Satisfies mode.builds fun w ↦
            ∃ us, Derives operand t ∧ (∀ u ∈ us, Derives (.seq op right) u) ∧
              w = .one (.tokens (t.followedBy us)) := by
          intro hbuilds
          obtain ⟨us, hus, rfl⟩ := ho' hbuilds
          exact ⟨us, ho hbuilds, hus, rfl⟩
        cases b with
        | some b =>
          refine .pure (hlist.built ?_)
          rintro _ vs ⟨us, ht, hus, rfl⟩ hvs
          exact .builtChain ht hus hvs
        | none =>
          refine .pure (hlist.imp ?_)
          rintro _ ⟨us, ht, hus, rfl⟩
          exact .chain ht hus
    | _ => exact .pure True.intro
  | _ => exact .pure True.intro

/-- A pattern is grounded if the rules are, of which it uses only those of the grammar. -/
theorem Pattern.isGrounded
    (hcall : ∀ r mode c, r.isKnown = true →
      Grounded (call r mode c) (Outcome.Satisfies mode.builds (Derives (.rule r))))
    {p : Pattern} (hp : p.wellFormed = true) : p.IsGrounded call := by
  induction p with
  | lexeme l =>
    intro skip mode c
    rw [Pattern.run]
    refine .pure ?_
    cases hscan : Outcome.ofLexeme (l.scan (enter (.lexeme l) skip mode c)) with
    | matched d t => exact fun _ ↦ .lexeme hscan
    | _ => exact True.intro
  | rule r => exact fun _ mode _ ↦ hcall r mode _ hp
  | seq a b iha ihb =>
    intro skip mode c
    rw [wellFormed, Bool.and_eq_true] at hp
    rw [Pattern.run]
    refine .bind (iha hp.1 false mode _) fun o ho ↦ ?_
    cases o with
    | matched d t =>
      refine .bind (ihb hp.2 true mode d) fun o' ho' ↦ ?_
      cases o' with
      | matched e u => exact .pure fun hbuilds ↦ .seq (ho hbuilds) (ho' hbuilds)
      | _ => exact .pure True.intro
    | _ => exact .pure True.intro
  | first a b iha ihb =>
    intro skip mode c
    rw [wellFormed, Bool.and_eq_true] at hp
    rw [Pattern.run]
    refine .bind (iha hp.1 true mode c) fun o ho ↦ ?_
    cases o with
    | matched d t => exact .pure fun hbuilds ↦ .firstLeft (ho hbuilds)
    | failed => exact (ihb hp.2 true mode c).imp fun _ ho' ↦ ho'.imp fun _ ↦ .firstRight
    | _ => exact .pure True.intro
  | longest a b iha ihb =>
    rw [wellFormed, Bool.and_eq_true] at hp
    exact isGrounded_longest (iha hp.1) (ihb hp.2)
  | optional p ih =>
    intro skip mode c
    rw [Pattern.run]
    refine .bind (ih hp false mode _) fun o ho ↦ ?_
    cases o with
    | matched => exact .pure fun hbuilds ↦ .present (ho hbuilds)
    | failed => exact .pure fun _ ↦ .omitted
    | _ => exact .pure True.intro
  | orBlank p ih =>
    intro skip mode c
    rw [Pattern.run]
    refine .bind (ih hp false mode _) fun o ho ↦ ?_
    cases o with
    | matched => exact .pure fun hbuilds ↦ .unblank (ho hbuilds)
    | failed => exact .pure fun _ ↦ .blank
    | _ => exact .pure True.intro
  | many p ih =>
    intro skip mode c
    rw [Pattern.run]
    refine .bind (ih hp false mode _) fun o ho ↦ ?_
    cases o with
    | matched d t =>
      refine (grounded_repeated (ih hp true mode) d.rest.length d t).imp fun o' ho' ↦ ?_
      cases o' with
      | matched e w =>
        intro hbuilds
        obtain ⟨us, hus, rfl⟩ := ho' hbuilds
        exact .many (ho hbuilds) hus
      | _ => exact True.intro
    | failed => exact .pure fun _ ↦ .manyNone
    | _ => exact .pure True.intro
  | atLeastOne p ih =>
    intro skip mode c
    rw [Pattern.run]
    refine .bind (ih hp false mode _) fun o ho ↦ ?_
    cases o with
    | matched d t =>
      refine (grounded_repeated (ih hp true mode) d.rest.length d t).imp fun o' ho' ↦ ?_
      cases o' with
      | matched e w =>
        intro hbuilds
        obtain ⟨us, hus, rfl⟩ := ho' hbuilds
        exact .atLeastOne (ho hbuilds) hus
      | _ => exact True.intro
    | _ => exact .pure True.intro
  | absent p ih =>
    intro skip mode c
    rw [Pattern.run]
    refine .bind (ih hp true mode.look c) fun o _ ↦ ?_
    cases o with
    | failed => exact .pure fun _ ↦ .absent
    | _ => exact .pure True.intro
  | ahead p ih =>
    intro skip mode c
    rw [Pattern.run]
    refine .bind (ih hp true mode _) fun o _ ↦ ?_
    cases o with
    | matched => exact .pure fun _ ↦ .ahead
    | _ => exact .pure True.intro
  | upTo p ih =>
    intro skip mode c
    exact grounded_searched (fun c ↦ (ih hp false mode.look c).imp fun _ _ ↦ True.intro) .upTo _ _ _
  | group p ih =>
    intro skip mode c
    exact .bind (ih hp skip mode c) fun o ho ↦ .pure (ho.mapTokens fun _ ↦ .group)
  | drop p ih =>
    intro skip mode c
    exact .bind (ih hp skip mode c) fun o ho ↦ .pure (ho.mapTokens fun _ _ ↦ .drop)
  | joined p ih =>
    intro skip mode c
    refine .bind (ih hp false mode.tighten _) fun o ho ↦ .pure ?_
    exact ho.mapTokens fun _ _ ↦ .joined _
  | joinedLoosely p ih =>
    intro skip mode c
    refine .bind (ih hp false mode _) fun o ho ↦ .pure ?_
    exact ho.mapTokens fun _ _ ↦ .joinedLoosely _
  | tight p ih =>
    intro skip mode c
    exact (ih hp false mode.tighten c).imp fun _ ho ↦ ho.imp fun _ ↦ .tight
  | label name extent p ih =>
    intro skip mode c
    exact .bind (ih hp skip mode c) fun o ho ↦ .pure (ho.mapTokens fun _ ↦ .label)
  | build b p ih =>
    intro skip mode c
    rw [wellFormed, Bool.and_eq_true] at hp
    refine .bind (ih hp.1 skip mode c) fun o ho ↦ .pure ?_
    exact ho.built fun _ _ ↦ .build
  | chain operand op right b ihoperand ihop ihright =>
    simp only [wellFormed, Bool.and_eq_true] at hp
    obtain ⟨⟨⟨hoperand, hop⟩, hright⟩, -⟩ := hp
    exact isGrounded_chain (ihoperand hoperand) (ihop hop) (ihright hright) b

end

/-! Rules -/

theorem RemembersDerived.insert {memory : Memory} (hmemory : RemembersDerived memory) {r : Rule}
    (hr : r.isKnown = true) {mode : Mode} {o : Outcome}
    (ho : o.Satisfies mode.builds (Derives (.rule r))) (c : Cursor) :
    RemembersDerived (memory.insert (memoryKey r mode c) o) := by
  intro r' mode' c' o' hr' hfind
  rw [Std.TreeMap.getElem?_insert] at hfind
  split at hfind
  · next hkey =>
    obtain ⟨rfl, rfl, -⟩ := memoryKey_injective hr hr' (Nat.compare_eq_eq.mp hkey)
    cases hfind
    exact ho
  · exact hmemory r' mode' c' o' hr' hfind

theorem remembersDerived_empty : RemembersDerived {} := by
  intro r mode c o _ hfind
  rw [Std.TreeMap.getElem?_emptyc] at hfind
  exact nomatch hfind

theorem grounded_recallRule (depth : Nat) {r : Rule} (hr : r.isKnown = true) (mode : Mode)
    (c : Cursor) :
    Grounded (recallRule depth r mode c) (Outcome.Satisfies mode.builds (Derives (.rule r))) := by
  induction depth generalizing r mode c with
  | zero => exact .pure True.intro
  | succ depth ih =>
    obtain ⟨hwell, -⟩ := Rule.wellFormed_ofRule hr
    rw [recallRule]
    refine .bind .get fun memory hmemory ↦ ?_
    dsimp only
    split
    · next o ho => exact .pure (hmemory r mode c o hr ho)
    · have hrun := Pattern.isGrounded (fun r mode c hr ↦ ih hr mode c) hwell false mode c
      refine .bind (hrun.imp fun o ho ↦ ho.imp fun _ ↦ Derives.rule) fun o ho ↦ ?_
      have hstore : Grounded (modify fun memory ↦ memory.insert (memoryKey r mode c) o)
          fun _ ↦ True := fun memory hmemory ↦ ⟨True.intro, hmemory.insert hr ho c⟩
      cases o with
      | exhausted => exact .pure True.intro
      | _ => exact .bind hstore fun _ _ ↦ .pure ho

/-- What is read without having remembered anything before is derived. -/
theorem derives_of_matched {p : Pattern} (hp : p.wellFormed = true) {depth : Nat} {skip : Bool}
    {mode : Mode} (hmode : mode.builds = true) {c d : Cursor} {t : Tokens}
    (h : (Id.run ((p.run (recallRule depth) skip mode c).run {})).1 = .matched d t) :
    Derives p t := by
  have hgrounded := Pattern.isGrounded (fun r mode c hr ↦ grounded_recallRule depth hr mode c) hp
    skip mode c {} remembersDerived_empty
  rw [h] at hgrounded
  exact hgrounded.1 hmode

end Grammar

end VbaTrace
