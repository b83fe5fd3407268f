import VbaTrace.Proofs.Recall

/-!
The faults of reading. Only builders raise them, and a builder raises one of three
(`Builder.sound_apply`); matching a pattern passes on the faults of its parts
(`Pattern.keeps_run`), also those that are remembered. So reading a text ends in a match or tells
that there is none, unless a builder fails or the rules nest too deep (`readFront_error`).
-/

set_option autoImplicit false

namespace VbaTrace.Grammar

/-! Builders -/

/-- The faults that builders raise. -/
def builderFaults : List Fault :=
  [.failedAssertion, .wrongType, .wrongValue]

/-- The result of a builder, if it is a fault, is one of theirs. -/
def Built.Sound : Built → Prop
  | values _ | refused => True
  | faulty f => f ∈ builderFaults

section

variable (t : Tokens)

theorem sound_ofOption (v : Option Value) : (Built.ofOption v).Sound := by
  cases v <;> exact True.intro

theorem sound_buildOne (f : Value → Node) : (buildOne t f).Sound := by
  unfold buildOne
  split <;> exact True.intro

theorem sound_readWholeNumbers (vs : List Value) : (readWholeNumbers vs).Sound := by
  cases vs with
  | nil => exact True.intro
  | cons v vs =>
    rw [readWholeNumbers]
    split
    · exact True.intro
    · exact List.mem_cons_of_mem _ (List.mem_cons_of_mem _ (List.mem_singleton_self _))

theorem sound_buildNumber (base : Nat) : (buildNumber base t).Sound := by
  unfold buildNumber
  split
  · exact True.intro
  · split <;> simp [Built.Sound, Built.one, builderFaults]

theorem sound_buildFraction : (buildFraction t).Sound := by
  unfold buildFraction
  split
  · split <;> simp [Built.Sound, Built.one, builderFaults]
  · exact True.intro

theorem sound_buildMember : (buildMember t).Sound := by
  unfold buildMember
  split
  · exact True.intro
  · split <;> exact True.intro

theorem sound_buildComparison : (buildComparison t).Sound := by
  unfold buildComparison
  split <;> simp [Built.Sound, Built.node, Built.one, builderFaults]

theorem sound_buildCondition (v : Value) : (buildCondition v).Sound := by
  unfold buildCondition
  split
  · split <;> exact True.intro
  · exact True.intro

theorem sound_buildDim : (buildDim t).Sound := by
  unfold buildDim
  split <;> exact True.intro

theorem sound_buildGlobalVar : (buildGlobalVar t).Sound := by
  unfold buildGlobalVar
  split
  · exact True.intro
  · split <;> exact True.intro

theorem sound_buildForLoop : (buildForLoop t).Sound := by
  unfold buildForLoop
  dsimp only
  split
  · exact True.intro
  · split <;> exact True.intro

theorem sound_buildSelectClause : (buildSelectClause t).Sound := by
  unfold buildSelectClause
  split
  · split <;> exact True.intro
  · split <;> exact True.intro
  · exact List.mem_cons_of_mem _ List.mem_cons_self

theorem sound_buildCaseClause : (buildCaseClause t).Sound := by
  unfold buildCaseClause
  extract_lets values isRange
  split
  · exact List.mem_cons_of_mem _ List.mem_cons_self
  · extract_lets isSet isElse needed
    split <;> exact True.intro

theorem Builder.sound_make (b : Builder) : (b.make t).Sound := by
  cases b with
  | firstItem | booleanLiteral | filePointer => exact sound_ofOption _
  | wholeNumbers => exact sound_readWholeNumbers _
  | decimal =>
    rw [Builder.make]
    split
    · exact True.intro
    · split <;> simp [Built.Sound, Built.one, builderFaults]
  | octal | hexadecimal => exact sound_buildNumber t _
  | fraction => exact sound_buildFraction t
  | chr | asc | strReverse | operation => exact sound_buildOne t _
  | member => exact sound_buildMember t
  | comparison => exact sound_buildComparison t
  | condition =>
    rw [Builder.make]
    split
    · exact True.intro
    · exact sound_buildCondition _
  | dim => exact sound_buildDim t
  | globalVar => exact sound_buildGlobalVar t
  | forLoop => exact sound_buildForLoop t
  | selectClause => exact sound_buildSelectClause t
  | caseClause => exact sound_buildCaseClause t
  | whileLoop | doLoop | withBlock =>
    rw [Builder.make]
    split <;> exact True.intro
  | _ => exact True.intro

theorem Builder.sound_apply (b : Builder) : (b.apply t).Sound := by
  have hfault : Fault.wrongValue ∈ builderFaults := by simp [builderFaults]
  exact apply_induct (b.sound_make t) hfault

end

/-! Outcomes and memories -/

namespace Outcome

/-- The outcome, if it is a fault, is one of a builder. -/
def Sound : Outcome → Prop
  | matched _ _ | failed | exhausted => True
  | faulty f => f ∈ builderFaults

variable {o : Outcome}

theorem Sound.mapTokens (ho : o.Sound) (f : Tokens → Tokens) : (o.mapTokens f).Sound := by
  cases o <;> exact ho

theorem Sound.built (ho : o.Sound) (b : Builder) : (o.built b).Sound := by
  cases o with
  | matched c t =>
    have hb := b.sound_apply t
    unfold Outcome.built
    dsimp only
    split
    · exact True.intro
    · exact True.intro
    · next f hf =>
      rw [hf] at hb
      exact hb
  | _ => exact ho

theorem sound_ofLexeme (found : Option (Cursor × Option String)) : (ofLexeme found).Sound := by
  rcases found with _ | ⟨c, _ | s⟩ <;> exact True.intro

end Outcome

/-- Whatever is remembered is sound. -/
def Memory.Sound (memory : Memory) : Prop :=
  ∀ (key : Nat) (o : Outcome), memory[key]? = some o → o.Sound

theorem Memory.Sound.insert {memory : Memory} (hmemory : Memory.Sound memory) (key : Nat)
    {o : Outcome} (ho : o.Sound) : Memory.Sound (memory.insert key o) := by
  intro key' o' hfind
  rw [Std.TreeMap.getElem?_insert] at hfind
  split at hfind
  · cases hfind
    exact ho
  · exact hmemory key' o' hfind

/-- The outcome is sound, and so is what is remembered afterwards. -/
def Keeps (x : StateM Memory Outcome) : Prop :=
  ∀ memory, Memory.Sound memory →
    (Id.run (x.run memory)).1.Sound ∧ Memory.Sound (Id.run (x.run memory)).2

namespace Keeps

variable {x : StateM Memory Outcome}

theorem pure {o : Outcome} (ho : o.Sound) : Keeps (Pure.pure o) :=
  fun _ hmemory ↦ ⟨ho, hmemory⟩

theorem bind (hx : Keeps x) {f : Outcome → StateM Memory Outcome}
    (hf : ∀ o, o.Sound → Keeps (f o)) : Keeps (x >>= f) := by
  intro memory hmemory
  obtain ⟨ho, hmemory'⟩ := hx memory hmemory
  exact hf _ ho _ hmemory'

/-- What follows a match or a failure is told; every other outcome is passed on. -/
theorem passing (hx : Keeps x) {f : Outcome → StateM Memory Outcome}
    (hmatched : ∀ c t, Keeps (f (.matched c t))) (hfailed : Keeps (f .failed))
    (hfaulty : ∀ g, f (.faulty g) = Pure.pure (.faulty g))
    (hexhausted : f .exhausted = Pure.pure .exhausted) : Keeps (x >>= f) := by
  refine hx.bind fun o ho ↦ ?_
  cases o with
  | matched c t => exact hmatched c t
  | failed => exact hfailed
  | faulty g =>
    rw [hfaulty]
    exact .pure ho
  | exhausted =>
    rw [hexhausted]
    exact .pure ho

end Keeps

/-! Patterns -/

section

theorem keeps_repeated {step : Cursor → StateM Memory Outcome} (hstep : ∀ c, Keeps (step c))
    (n : Nat) (c : Cursor) (t : Tokens) : Keeps (repeated step n c t) := by
  induction n generalizing c t with
  | zero => exact .pure True.intro
  | succ n ih =>
    rw [repeated]
    exact (hstep c).passing (fun d u ↦ ih d _) (.pure True.intro) (fun _ ↦ rfl) rfl

theorem keeps_searched {stop : Cursor → StateM Memory Outcome} (hstop : ∀ c, Keeps (stop c))
    (start : Cursor) (n : Nat) (c : Cursor) : Keeps (searched stop start n c) := by
  induction n generalizing c with
  | zero => exact .pure True.intro
  | succ n ih =>
    rw [searched]
    refine (hstop c).passing (fun _ _ ↦ .pure True.intro) ?_ (fun _ ↦ rfl) rfl
    dsimp only
    split
    · exact .pure True.intro
    · exact ih c.step

theorem keeps_preferred {longer shorter : StateM Memory Outcome} (hlonger : Keeps longer)
    (hshorter : Keeps shorter) (longerEnd shorterEnd : Nat) :
    Keeps (preferred longer shorter longerEnd shorterEnd) := by
  unfold preferred
  refine hlonger.passing (fun c t ↦ ?_) hshorter (fun _ ↦ rfl) rfl
  dsimp only
  split
  · exact .pure True.intro
  · refine hshorter.passing (fun d u ↦ ?_) (.pure True.intro) (fun _ ↦ rfl) rfl
    dsimp only
    split <;> exact .pure True.intro

variable {call : Rule → Mode → Cursor → StateM Memory Outcome}

theorem keeps_longest {a b : Pattern} {c : Cursor} (ha : ∀ mode, Keeps (a.run call true mode c))
    (hb : ∀ mode, Keeps (b.run call true mode c)) (skip : Bool) (mode : Mode) :
    Keeps ((Pattern.longest a b).run call skip mode c) := by
  rw [Pattern.run]
  refine (ha mode.look).bind fun x hx ↦ (hb mode.look).bind fun y hy ↦ ?_
  cases x with
  | matched d t =>
    cases y with
    | matched e u =>
      dsimp only
      split
      · split
        · exact keeps_preferred (hb mode) (ha mode) _ _
        · exact keeps_preferred (ha mode) (hb mode) _ _
      · split <;> exact .pure True.intro
    | failed =>
      dsimp only
      split
      · exact ha mode
      · exact .pure True.intro
    | _ => exact .pure hy
  | failed =>
    cases y with
    | matched e u =>
      dsimp only
      split
      · exact hb mode
      · exact .pure True.intro
    | _ => exact .pure hy
  | _ => cases y <;> exact .pure hx

theorem keeps_chain {operand op right : Pattern} {mode : Mode}
    (hoperand : ∀ c, Keeps (operand.run call true mode c))
    (hop : ∀ c, Keeps (op.run call true mode c)) (hright : ∀ c, Keeps (right.run call true mode c))
    (b : Option Builder) (skip : Bool) (c : Cursor) :
    Keeps ((Pattern.chain operand op right b).run call skip mode c) := by
  rw [Pattern.run]
  refine (hoperand c).passing (fun d t ↦ ?_) (.pure True.intro) (fun _ ↦ rfl) rfl
  extract_lets tail
  have htail (e : Cursor) : Keeps (tail e) :=
    (hop e).passing (fun e₁ _ ↦ (hright e₁).passing (fun _ _ ↦ .pure True.intro)
      (.pure True.intro) (fun _ ↦ rfl) rfl) (.pure True.intro) (fun _ ↦ rfl) rfl
  refine (keeps_repeated htail _ d t).passing (fun e u ↦ ?_) (.pure True.intro) (fun _ ↦ rfl) rfl
  dsimp only
  split
  · exact .pure True.intro
  · cases b with
    | none => exact .pure True.intro
    | some b =>
      dsimp only
      split
      · exact .pure (Outcome.Sound.built (o := .matched e _) True.intro b)
      · exact .pure True.intro

/-- Matching a pattern raises no faults but those of builders, if that holds of the rules. -/
theorem Pattern.keeps_run (hcall : ∀ r mode c, Keeps (call r mode c)) (p : Pattern) (skip : Bool)
    (mode : Mode) (c : Cursor) : Keeps (p.run call skip mode c) := by
  induction p generalizing skip mode c with
  | lexeme l => exact .pure (Outcome.sound_ofLexeme _)
  | rule r => exact hcall r mode _
  | seq a b iha ihb =>
    rw [Pattern.run]
    refine (iha false mode _).passing (fun d t ↦ ?_) (.pure True.intro) (fun _ ↦ rfl) rfl
    exact (ihb true mode d).passing (fun _ _ ↦ .pure True.intro) (.pure True.intro)
      (fun _ ↦ rfl) rfl
  | first a b iha ihb =>
    rw [Pattern.run]
    exact (iha true mode c).passing (fun _ _ ↦ .pure True.intro) (ihb true mode c)
      (fun _ ↦ rfl) rfl
  | longest a b iha ihb => exact keeps_longest (iha true · c) (ihb true · c) skip mode
  | optional p ih | orBlank p ih =>
    rw [Pattern.run]
    exact (ih false mode _).passing (fun _ _ ↦ .pure True.intro) (.pure True.intro)
      (fun _ ↦ rfl) rfl
  | many p ih | atLeastOne p ih =>
    rw [Pattern.run]
    exact (ih false mode _).passing (fun d t ↦ keeps_repeated (ih true mode) _ d t)
      (.pure True.intro) (fun _ ↦ rfl) rfl
  | absent p ih =>
    rw [Pattern.run]
    exact (ih true mode.look c).passing (fun _ _ ↦ .pure True.intro) (.pure True.intro)
      (fun _ ↦ rfl) rfl
  | ahead p ih =>
    rw [Pattern.run]
    exact (ih true mode _).passing (fun _ _ ↦ .pure True.intro) (.pure True.intro)
      (fun _ ↦ rfl) rfl
  | upTo p ih => exact keeps_searched (ih false mode.look) _ _ _
  | group p ih | drop p ih | label name extent p ih =>
    exact (ih skip mode c).bind fun o ho ↦ .pure (ho.mapTokens _)
  | joined p ih => exact (ih false mode.tighten _).bind fun o ho ↦ .pure (ho.mapTokens _)
  | joinedLoosely p ih => exact (ih false mode _).bind fun o ho ↦ .pure (ho.mapTokens _)
  | tight p ih => exact ih false mode.tighten c
  | build b p ih =>
    refine (ih skip mode c).bind fun o ho ↦ ?_
    split
    · exact .pure (ho.built b)
    · exact .pure ho
  | chain operand op right b ihoperand ihop ihright =>
    exact keeps_chain (ihoperand true mode) (ihop true mode) (ihright true mode) b skip c

end

/-! Rules -/

theorem keeps_recallRule (depth : Nat) (r : Rule) (mode : Mode) (c : Cursor) :
    Keeps (recallRule depth r mode c) := by
  induction depth generalizing r mode c with
  | zero => exact .pure True.intro
  | succ depth ih =>
    intro memory hmemory
    cases hfind : memory[memoryKey r mode c]? with
    | some o =>
      rw [recallRule_of_some hfind]
      exact ⟨hmemory _ o hfind, hmemory⟩
    | none =>
      have hkeeps := Pattern.keeps_run ih (Pattern.ofRule r) false mode c memory hmemory
      rcases hrun : ((Pattern.ofRule r).run (recallRule depth) false mode c).run memory with
        ⟨o, memory'⟩
      rw [hrun] at hkeeps
      obtain ⟨ho, hmemory'⟩ := hkeeps
      obtain ⟨kept, heq, rfl | ⟨-, rfl⟩⟩ := recallRule_of_none hfind hrun
      · rw [heq]
        exact ⟨ho, hmemory'⟩
      · rw [heq]
        exact ⟨ho, hmemory'.insert _ ho⟩

/-- Reading a text fails when nothing matches, when the rules nest too deep, or when a builder
does. -/
theorem readFront_error {r : Rule} {text : String} {f : Fault} (h : readFront r text = .error f) :
    f = .noMatch none ∨ f = .tooDeep ∨ f ∈ builderFaults := by
  have hempty : Memory.Sound {} := by
    intro key o hfind
    rw [Std.TreeMap.getElem?_emptyc] at hfind
    exact nomatch hfind
  unfold readFront at h
  dsimp only at h
  have hsound := (keeps_recallRule (depthBound (Text.expandTabs text.toList).length) r .normal
    (enter (.rule r) true .normal (Cursor.start (Text.expandTabs text.toList))) {} hempty).1
  split at h
  · exact nomatch h
  · cases h
    exact .inl rfl
  · next g hg =>
    cases h
    rw [hg] at hsound
    exact .inr (.inr hsound)
  · cases h
    exact .inr (.inl rfl)

theorem readEchoing_error {r : Rule} {all : Bool} {text : String} {f : Fault}
    (h : (readEchoing r all text).1 = .error f) :
    (∃ place, f = .noMatch place) ∨ f = .tooDeep ∨ f ∈ builderFaults := by
  unfold readEchoing at h
  split at h
  · next g hg =>
    cases h
    exact (readFront_error hg).imp_left fun h ↦ ⟨none, h⟩
  · next reading _ =>
    dsimp only at h
    unfold Reading.complete at h
    dsimp only at h
    split_ifs at h with _ hend
    · cases h
      exact .inl ⟨_, rfl⟩

end VbaTrace.Grammar
