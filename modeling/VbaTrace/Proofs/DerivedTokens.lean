import VbaTrace.Proofs.Derivations
import VbaTrace.Semantics.Expressions

/-!
What the tokens of all matches of a pattern have in common: of which kind they are (`Pattern.Only`)
and how many there are (`Pattern.HasCount`). Both follow the pattern, and need the text nowhere.

Procedures are built only where they are declared. An expression in particular is one token, and no
procedure (`not_isCallable_of_derives`, `items_of_expression`).
-/

set_option autoImplicit false

namespace VbaTrace

namespace Tokens

@[simp] theorem items_append (t u : Tokens) : (t.append u).items = t.items ++ u.items :=
  rfl

@[simp] theorem items_one (v : Value) : (one v).items = [v] :=
  rfl

@[simp] theorem items_empty : empty.items = [] :=
  rfl

theorem items_followedBy (t : Tokens) (us : List Tokens) :
    (t.followedBy us).items = t.items ++ us.flatMap items := by
  induction us generalizing t with
  | nil => simp [followedBy]
  | cons u us ih =>
    have hstep : t.followedBy (u :: us) = (t.append u).followedBy us := rfl
    rw [hstep, ih]
    simp

end Tokens

namespace Grammar

theorem items_labelled (name : String) (extent : Extent) (t : Tokens) :
    (labelled name extent t).items = t.items := by
  unfold labelled
  split
  · rfl
  · split
    · next h => exact h.symm
    · rfl
    · rfl

/-! No procedures -/

/-- A builder of something other than a procedure. -/
def Builder.isPlain : Builder → Bool
  | sub | function => false
  | _ => true

/-- A rule none of whose tokens is a procedure. -/
def Rule.isPlain : Rule → Bool
  | sub | subStartLine | function | functionStartLine | moduleCode | moduleBody | anyLine => false
  | _ => true

/-- A pattern none of whose tokens is a procedure. What is grouped or built over does not count. -/
def Pattern.isPlain : Pattern → Bool
  | rule r => r.isPlain
  | seq a b | first a b | longest a b => a.isPlain && b.isPlain
  | optional p | orBlank p | many p | atLeastOne p | tight p | label _ _ p => p.isPlain
  | build b p => b.isPlain && (b != .firstItem || p.isPlain)
  | chain operand _ _ b => operand.isPlain && b.all Builder.isPlain
  | lexeme _ | absent _ | ahead _ | upTo _ | group _ | drop _ | joined _ | joinedLoosely _ => true

/-- The rungs of all ladders build operations and comparisons. -/
theorem Ladder.isPlain_pattern (l : Ladder) (height : Nat) : (l.pattern height).isPlain = true := by
  have hrungs : ∀ r ∈ l.rungs, r.builder.all Builder.isPlain = true := by cases l <;> decide
  have hchain {below right : Pattern} (hbelow : below.isPlain = true) {i : Nat} {r : Rung}
      (hr : l.rungs[i]? = some r) : (Pattern.chain below r.sign right r.builder).isPlain = true := by
    rw [Pattern.isPlain, hbelow, hrungs r (List.mem_of_getElem? hr)]
    rfl
  cases height with
  | zero => cases l <;> rfl
  | succ k =>
    unfold pattern
    dsimp only
    split
    · cases k with
      | zero => rfl
      | succ j =>
        dsimp only
        split
        · next hr => exact hchain rfl hr
        · rfl
    · split
      · next hr => exact hchain rfl hr
      · rfl

theorem Rule.isPlain_ofRule {r : Rule} (h : r.isPlain = true) :
    (Pattern.ofRule r).isPlain = true := by
  cases r with
  | level l height => exact l.isPlain_pattern height
  | _ => first | exact Bool.noConfusion h | decide

/-- None of the values that were built is a procedure. -/
def Built.Plain : Built → Prop
  | .values vs => ∀ v ∈ vs, Semantics.isCallable v = false
  | .refused | .faulty _ => True

theorem Built.plain_one {v : Value} (h : Semantics.isCallable v = false) : (Built.one v).Plain :=
  List.forall_mem_singleton.mpr h

theorem readWholeNumbers_plain (vs : List Value) : (readWholeNumbers vs).Plain := by
  induction vs with
  | nil => exact fun _ hv ↦ nomatch hv
  | cons v vs ih =>
    rw [readWholeNumbers]
    split
    · next ws _ heq =>
      rw [heq] at ih
      exact List.forall_mem_cons.mpr ⟨rfl, ih⟩
    · exact True.intro

theorem isCallable_conditionOf (vs : List Value) :
    Semantics.isCallable (.node (conditionOf vs)) = false := by
  fun_cases conditionOf vs <;> rfl

/-- Builders make something new, except for the one that passes on its first token. -/
theorem Builder.make_plain {b : Builder} (hb : b.isPlain = true) {t : Tokens}
    (hfirst : b = .firstItem → ∀ v ∈ t.items, Semantics.isCallable v = false) :
    (b.make t).Plain := by
  cases b with
  | firstItem =>
    cases hhead : t.items.head? with
    | none => rw [make, hhead]; exact True.intro
    | some v =>
      rw [make, hhead]
      exact Built.plain_one (hfirst rfl v (List.mem_of_mem_head? hhead))
  | sub | function => exact Bool.noConfusion hb
  | wholeNumbers => exact readWholeNumbers_plain t.items
  | booleanLiteral | filePointer =>
    cases hhead : t.items.head? with
    | none => rw [make, hhead]; exact True.intro
    | some v => rw [make, hhead]; exact Built.plain_one rfl
  | condition =>
    unfold make buildCondition
    dsimp only
    split
    · exact True.intro
    · split
      · split
        · exact True.intro
        · exact True.intro
        · exact Built.plain_one rfl
        · exact Built.plain_one (isCallable_conditionOf _)
      · exact Built.plain_one rfl
  | decimal | octal | hexadecimal | fraction | chr | asc | strReverse | member | operation
  | comparison | dim | globalVar | forLoop | whileLoop | doLoop | selectClause | caseClause
  | withBlock =>
    simp only [make, buildNumber, buildFraction, buildOne, buildMember, buildComparison, buildDim,
      buildGlobalVar, buildForLoop, buildSelectClause, buildCaseClause]
    repeat' split
    all_goals first | exact True.intro | exact Built.plain_one rfl
  | _ => exact Built.plain_one rfl

theorem Builder.apply_plain {b : Builder} (hb : b.isPlain = true) {t : Tokens}
    (hfirst : b = .firstItem → ∀ v ∈ t.items, Semantics.isCallable v = false) :
    (b.apply t).Plain :=
  apply_induct (b.make_plain hb hfirst) True.intro

/-- A lexeme leaves a text or nothing. -/
theorem forall_mem_of_ofLexeme {P : Value → Prop} (hP : ∀ s, P (.text s))
    {found : Option (Cursor × Option String)} {d : Cursor} {t : Tokens}
    (h : Outcome.ofLexeme found = .matched d t) : ∀ v ∈ t.items, P v := by
  rcases found with _ | ⟨c, _ | s⟩
  · exact nomatch h
  · cases h
    exact nofun
  · cases h
    exact List.forall_mem_singleton.mpr (hP s)

theorem forall_mem_followedBy {P : Value → Prop} {t : Tokens} {us : List Tokens}
    (ht : ∀ v ∈ t.items, P v) (hus : ∀ u ∈ us, ∀ v ∈ u.items, P v) :
    ∀ v ∈ (t.followedBy us).items, P v := by
  intro v hv
  rw [Tokens.items_followedBy, List.mem_append, List.mem_flatMap] at hv
  rcases hv with hv | ⟨u, hu, hv⟩
  · exact ht v hv
  · exact hus u hu v hv

theorem not_isCallable_of_derives {p : Pattern} {t : Tokens} (h : Derives p t)
    (hp : p.isPlain = true) : ∀ v ∈ t.items, Semantics.isCallable v = false := by
  induction h with
  | lexeme hscan => exact forall_mem_of_ofLexeme (fun _ ↦ rfl) hscan
  | @rule r t _ ih => exact ih (Rule.isPlain_ofRule hp)
  | seq _ _ iha ihb =>
    rw [Pattern.isPlain, Bool.and_eq_true] at hp
    exact List.forall_mem_append.mpr ⟨iha hp.1, ihb hp.2⟩
  | firstLeft _ ih | longestLeft _ ih =>
    rw [Pattern.isPlain, Bool.and_eq_true] at hp
    exact ih hp.1
  | firstRight _ ih | longestRight _ ih =>
    rw [Pattern.isPlain, Bool.and_eq_true] at hp
    exact ih hp.2
  | omitted | manyNone | absent | ahead | drop => exact nofun
  | present _ ih | unblank _ ih | tight _ ih => exact ih hp
  | blank | upTo | joined | joinedLoosely | group => exact List.forall_mem_singleton.mpr rfl
  | many _ _ ih ihs | atLeastOne _ _ ih ihs =>
    exact forall_mem_followedBy (ih hp) fun u hu ↦ ihs u hu hp
  | label _ ih =>
    rw [items_labelled]
    exact ih hp
  | build _ hvs ih =>
    rw [Pattern.isPlain, Bool.and_eq_true, Bool.or_eq_true] at hp
    have hplain := Builder.apply_plain hp.1 fun hb ↦ ih (hp.2.resolve_left (by simp [hb]))
    rw [hvs] at hplain
    exact hplain
  | operand _ ih =>
    rw [Pattern.isPlain, Bool.and_eq_true] at hp
    exact ih hp.1
  | chain => exact List.forall_mem_singleton.mpr rfl
  | @builtChain _ _ _ b t us _ _ _ hvs =>
    rw [Pattern.isPlain, Bool.and_eq_true] at hp
    have hlist : ∀ v ∈ (Tokens.one (.tokens (t.followedBy us))).items,
        Semantics.isCallable v = false := List.forall_mem_singleton.mpr rfl
    have hplain := Builder.apply_plain hp.2 fun _ ↦ hlist
    rw [hvs] at hplain
    exact hplain

/-! Kinds and numbers of tokens -/

/-- All tokens of a match are as stated. -/
def Pattern.Only (P : Value → Prop) (p : Pattern) : Prop :=
  ∀ t, Derives p t → ∀ v ∈ t.items, P v

section

variable {P : Value → Prop} {a b p : Pattern}

theorem only_rule {r : Rule} (h : (Pattern.ofRule r).Only P) : (Pattern.rule r).Only P := by
  intro t ht
  cases ht with
  | rule ht => exact h t ht

theorem only_seq (ha : a.Only P) (hb : b.Only P) : (a ++ b).Only P := by
  intro t ht
  cases ht with
  | seq ht hu => exact List.forall_mem_append.mpr ⟨ha _ ht, hb _ hu⟩

theorem only_first (ha : a.Only P) (hb : b.Only P) : (a <|> b).Only P := by
  intro t ht
  cases ht with
  | firstLeft ht => exact ha t ht
  | firstRight ht => exact hb t ht

theorem only_optional (hp : p.Only P) : (Pattern.optional p).Only P := by
  intro t ht
  cases ht with
  | omitted => exact nofun
  | present ht => exact hp t ht

theorem only_many (hp : p.Only P) : (Pattern.many p).Only P := by
  intro t ht
  cases ht with
  | manyNone => exact nofun
  | many ht hus => exact forall_mem_followedBy (hp _ ht) fun u hu ↦ hp u (hus u hu)

theorem only_atLeastOne (hp : p.Only P) : (Pattern.atLeastOne p).Only P := by
  intro t ht
  cases ht with
  | atLeastOne ht hus => exact forall_mem_followedBy (hp _ ht) fun u hu ↦ hp u (hus u hu)

theorem only_drop (p : Pattern) : (Pattern.drop p).Only P := by
  intro t ht
  cases ht
  exact nofun

theorem only_build {b : Builder} (hb : ∀ t vs, b.make t = .values vs → ∀ v ∈ vs, P v)
    (p : Pattern) : (Pattern.build b p).Only P := by
  intro t ht
  cases ht with
  | build _ hvs => exact hb _ _ (Builder.make_of_apply hvs)

/-- A builder of one kind of node. -/
theorem only_build_node {b : Builder} {make : Tokens → Node}
    (hb : ∀ t, b.make t = .node (make t)) (hmake : ∀ t, P (.node (make t))) (p : Pattern) :
    (Pattern.build b p).Only P := by
  refine only_build (fun t vs hvs ↦ ?_) p
  rw [hb] at hvs
  cases hvs
  exact List.forall_mem_singleton.mpr (hmake t)

end

section

variable {a b p : Pattern} {t : Tokens}

/-- Every match has this number of tokens. -/
def Pattern.HasCount (n : Nat) (p : Pattern) : Prop :=
  ∀ t, Derives p t → t.items.length = n

theorem hasCount_drop (p : Pattern) : (Pattern.drop p).HasCount 0 := by
  intro t ht
  cases ht
  rfl

theorem hasCount_rule {n : Nat} {r : Rule} (h : (Pattern.ofRule r).HasCount n) :
    (Pattern.rule r).HasCount n := by
  intro t ht
  cases ht with
  | rule ht => exact h t ht

theorem hasCount_first {n : Nat} (ha : a.HasCount n) (hb : b.HasCount n) :
    (Pattern.first a b).HasCount n := by
  intro t ht
  cases ht with
  | firstLeft ht => exact ha t ht
  | firstRight ht => exact hb t ht

theorem hasCount_seq {m n : Nat} (ha : a.HasCount m) (hb : b.HasCount n) :
    (a ++ b).HasCount (m + n) := by
  intro t ht
  cases ht with
  | seq ht hu => rw [Tokens.items_append, List.length_append, ha _ ht, hb _ hu]

theorem hasCount_build {b : Builder}
    (hb : ∀ t vs, b.make t = .values vs → vs.length = 1) (p : Pattern) :
    (Pattern.build b p).HasCount 1 := by
  intro t ht
  cases ht with
  | build _ hvs => exact hb _ _ (Builder.make_of_apply hvs)

theorem items_of_lit {s : String} (h : Derives (.lit s) t) : t.items = [.text s] := by
  cases h with
  | lexeme hscan =>
    unfold Lexeme.scan at hscan
    dsimp only at hscan
    cases hmatch : exactMatch s.toList _ with
    | none =>
      rw [hmatch] at hscan
      exact nomatch hscan
    | some d =>
      rw [hmatch] at hscan
      cases hscan
      rw [Tokens.items_one, String.ofList_toList]

theorem items_of_lexIdentifier (h : Derives Pattern.lexIdentifier t) : ∃ s, t.items = [.text s] := by
  cases h with
  | lexeme hscan =>
    unfold Lexeme.scan at hscan
    dsimp only at hscan
    split at hscan
    · exact nomatch hscan
    · split at hscan
      · cases hscan
        exact ⟨_, rfl⟩
      · exact nomatch hscan

theorem apply_firstItem {vs : List Value} (h : Builder.firstItem.apply t = .values vs) :
    ∃ v, vs = [v] ∧ v ∈ t.items := by
  have h := Builder.make_of_apply h
  cases hhead : t.items.head? with
  | none =>
    rw [Builder.make, hhead] at h
    exact nomatch h
  | some v =>
    rw [Builder.make, hhead] at h
    cases h
    exact ⟨v, rfl, List.mem_of_mem_head? hhead⟩

theorem items_of_identifier (h : Derives (.rule .identifier) t) : ∃ s, t.items = [.text s] := by
  cases h with
  | rule h =>
    cases h with
    | build h hvs =>
      obtain ⟨v, rfl, hv⟩ := apply_firstItem hvs
      cases h with
      | seq habsent hword =>
        obtain ⟨s, hs⟩ := items_of_lexIdentifier hword
        cases habsent
        rw [Tokens.items_append, Tokens.items_empty, hs] at hv
        exact ⟨s, congrArg ([·]) (List.mem_singleton.mp hv)⟩

theorem items_of_typedName (h : Derives (.rule .typedName) t) : ∃ s, t.items = [.text s] := by
  cases h with
  | rule h =>
    cases h with
    | joined s => exact ⟨s, rfl⟩

theorem items_of_expression (h : Derives (.rule .expression) t) :
    ∃ v, t.items = [v] ∧ Semantics.isCallable v = false := by
  have hplain := not_isCallable_of_derives h rfl
  cases h with
  | rule h =>
    cases h with
    | build _ hvs =>
      obtain ⟨v, rfl, -⟩ := apply_firstItem hvs
      exact ⟨v, rfl, hplain v List.mem_cons_self⟩

theorem length_of_buildNumber {base : Nat} {vs : List Value} (h : buildNumber base t = .values vs) :
    vs.length = 1 := by
  unfold buildNumber at h
  split at h
  · exact nomatch h
  · split at h
    · cases h
      rfl
    · exact nomatch h

theorem length_of_decimal {vs : List Value} (h : Builder.decimal.make t = .values vs) :
    vs.length = 1 := by
  unfold Builder.make at h
  dsimp only at h
  split at h
  · exact nomatch h
  · split at h
    · cases h
      rfl
    · exact nomatch h

theorem hasCount_simpleName : (Pattern.rule .simpleName).HasCount 1 := by
  refine hasCount_rule (hasCount_build (fun t vs h ↦ ?_) _)
  cases h
  rfl

theorem hasCount_integer : (Pattern.rule .integer).HasCount 1 := by
  refine hasCount_rule (hasCount_first (hasCount_rule ?_) (hasCount_first ?_ ?_))
  · exact hasCount_build (fun _ _ ↦ length_of_decimal) _
  · exact hasCount_build (b := .octal) (fun _ _ h ↦ length_of_buildNumber h) _
  · exact hasCount_build (b := .hexadecimal) (fun _ _ h ↦ length_of_buildNumber h) _

/-- A type is one token. -/
theorem hasCount_asClause : Pattern.asClause.HasCount 1 := by
  have hword : Pattern.lexIdentifier.HasCount 1 := by
    intro t ht
    obtain ⟨s, hs⟩ := items_of_lexIdentifier ht
    rw [hs]
    rfl
  have hobject : Pattern.asAutoObject.HasCount 1 :=
    hasCount_seq (hasCount_seq (hasCount_drop _) (hasCount_drop _)) hasCount_simpleName
  have hfixed : Pattern.fixedLengthString.HasCount 1 :=
    hasCount_seq (hasCount_seq (hasCount_drop _) (hasCount_drop _))
      (hasCount_first hasCount_simpleName hasCount_integer)
  exact hasCount_first hobject (hasCount_seq (hasCount_drop _) (hasCount_first hfixed hword))

end

end Grammar

end VbaTrace
