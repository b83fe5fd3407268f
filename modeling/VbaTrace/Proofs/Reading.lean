import VbaTrace.Grammar.Parse
import VbaTrace.Proofs.Builders

/-!
Reading keeps operands and statements apart. The shape of a pattern is computed from the shapes of
the rules in it (`Pattern.shape`), and a pattern is well-formed when every builder in it accepts the
shape that it gets (`Pattern.wellFormed`). All rules of the grammar are well-formed
(`Rule.wellFormed_ofRule`), so that a match of a pattern has the pattern's shape
(`Pattern.safe_run`), and what is read with a rule has the shape of the rule (`readFront_hasShape`).
-/

set_option autoImplicit false

namespace VbaTrace

namespace Grammar

/-! Rules -/

namespace Rule

/-- The rules of the grammar; of the levels, those that its ladders have. -/
def isKnown : Rule → Bool
  | level l h => h ≤ l.height
  | _ => true

/-- The rules by their numbers; one level stands for all. -/
def byNumber : List Rule :=
  [nonLineTerminator, lineTerminator, nonTerminatedLine, sourceLine, physicalLines, whitespaces,
    lineContinuation, extendedLine, logicalLines, logicalLine, moduleLines, singleQuote,
    commentBody, comment, remStatement, endOfLine, endOfStatement, statementKeyword, remKeyword,
    markerKeyword, operatorIdentifier, reservedName, specialForm, reservedType, booleanWord,
    objectWord, variantWord, literalWord, implementationReserved, futureReserved,
    reservedIdentifier, reservedKeywords, lexIdentifier, identifier, foreignName, builtinType,
    typeSuffix, typedName, entityName, unrestrictedName, dottedName, looseDottedName,
    booleanLiteral, decimalLiteral, octalLiteral, hexLiteral, integer, floatLiteral, quotedString,
    rawQuotedString, dateString, literal, expression, chrCall, ascCall, strReverseCall,
    environCall, filePointer, simpleName, instanceExpression, lExpression, callLimited,
    functionCall, memberObject, memberAccess, memberObjectLimited, memberAccessLimited,
    procedurePointer, addressOf, argumentExpression, namedArgument, namedArguments,
    positionalArgument, positionalOrNamed, argumentList, indexExpression, dictionaryAccess,
    withMember, withDictionary, withExpression, newExpression, booleanExpression, exprListItem,
    exprList, callElement, exprItem, limitedExpression, exprConst, chrConst, ascConst,
    strReverseConst, environConst, exprConstItem, boolExprItem, level .full 0, keywordStart,
    unknownStatement, quotedIdentifier, attributeStatement, optionStatement, typeDeclaration,
    arrayDesignator, functionType, defaultValue, parameterMechanism, optionalParam, parameterType,
    untypedParameter, parameter, parametersList, labelDefinition, statementLabel, statementLabels,
    statement, externalFunction, blockStatement, statementBlock, lowerBound, dimSpec, boundsList,
    arrayDim, stringLength, fixedLengthString, typeSpec, asType, asAutoObject, asClause,
    arrayClause, untypedVariable, typedVariable, variableDeclaration, variableDeclarations,
    dimStatement, publicPrivate, globalDeclaration, letStatement, propertyAssign, stepClause,
    forClause, forStatement, strayNext, forStart, forEnd, forEachClause, forEachStatement,
    whileType, whileClause, whileStatement, doStatement, selectClause, caseClause, selectCase,
    selectStatement, multiLineIf, openIf, simpleStatementsLine, singleLineIf, ifStatement,
    directiveIf, callParams, callStatement, exitForStatement, exitDoStatement, exitLoopStatement,
    exitProcedureStatement, redimStatement, withStatement, gotoStatement, labelStatement,
    onErrorStatement, fileType, fileOpenStatement, printStatement, doEventsStatement,
    simpleStatement, statementsLine, returnType, parenthesizedParams, libInfo, procedureScope,
    staticKeyword, lifecycleName, procedureName, functionName, procedureTail, subStart, subEnd,
    sub, subStartLine, functionStart, functionEnd, function, functionStartLine, headerLine,
    moduleHeader, declarationStatement, declarationLine, moduleDeclarations, emptyLine,
    moduleCode, moduleBody, codeModule, anyLine, statementLines]

/-- The shape of what a rule yields. -/
def shape : Rule → Shape
  | unknownStatement | attributeStatement | optionStatement | parameter | parametersList | statement
  | externalFunction | blockStatement | statementBlock | dimStatement | globalDeclaration
  | letStatement | propertyAssign | forStatement | forStart | forEachStatement | whileStatement
  | doStatement | selectClause | caseClause | selectCase | selectStatement | multiLineIf | openIf
  | simpleStatementsLine | singleLineIf | ifStatement | directiveIf | callStatement
  | exitForStatement | exitDoStatement | exitLoopStatement | exitProcedureStatement
  | redimStatement | withStatement | gotoStatement | labelStatement | onErrorStatement
  | fileOpenStatement | printStatement | simpleStatement | statementsLine | statementLines | sub
  | subStartLine | function | functionStartLine | headerLine | moduleHeader | declarationStatement
  | declarationLine | moduleDeclarations | moduleCode | moduleBody | codeModule => ⟨.statement, []⟩
  | parenthesizedParams | subStart | functionStart | anyLine => ⟨.statement, ["params"]⟩
  | _ => .operands

end Rule

namespace Pattern

/-- The shape of what a pattern yields. -/
def shape : Pattern → Shape
  | lexeme _ | absent _ | ahead _ | upTo _ | drop _ | joined _ | joinedLoosely _ => .operands
  | rule r => r.shape
  | seq a b | first a b | longest a b => a.shape.join b.shape
  | optional p | orBlank p | many p | atLeastOne p | tight p => p.shape
  | group p => ⟨p.shape.whole, []⟩
  | label name _ p =>
    if p.shape.items == .operand then p.shape
    else { p.shape with statements := name :: p.shape.statements }
  | build b p => ⟨b.role p.shape.items, []⟩
  | chain operand op right b =>
    let parts := (operand.shape.join (op.shape.join right.shape)).whole
    operand.shape.join ⟨b.elim parts fun b ↦ b.role parts, []⟩

/-- The shape of the parts of a chain. -/
def chained (operand op right : Pattern) : Shape :=
  operand.shape.join (op.shape.join right.shape)

/-- Only rules of the grammar are used, and builders get operands where they need them. -/
def wellFormed : Pattern → Bool
  | lexeme _ => true
  | rule r => r.isKnown
  | seq a b | first a b | longest a b => a.wellFormed && b.wellFormed
  | optional p | orBlank p | many p | atLeastOne p | tight p | absent p | ahead p | upTo p | drop p
  | joined p | joinedLoosely p | group p | label _ _ p => p.wellFormed
  | build b p => p.wellFormed && b.accepts p.shape
  | chain operand op right b =>
    operand.wellFormed && op.wellFormed && right.wellFormed &&
      b.all fun b ↦ b.accepts ⟨(chained operand op right).whole, []⟩

end Pattern

namespace Rule

/-- The pattern of a rule is well-formed and has the shape of the rule. -/
theorem wellFormed_ofRule {r : Rule} (h : r.isKnown = true) :
    (Pattern.ofRule r).wellFormed = true ∧ (Pattern.ofRule r).shape.within r.shape = true := by
  cases r with
  | level l height =>
    have hlevels : ∀ l ∈ [Ladder.full, .limited, .constant, .boolean], ∀ h ≤ l.height,
        (l.pattern h).wellFormed = true ∧ (l.pattern h).shape.within .operands = true := by
      decide +kernel
    exact hlevels l (by cases l <;> decide) height (of_decide_eq_true h)
  | _ => decide +kernel

theorem byNumber_code {r : Rule} (h : ∀ l height, r ≠ level l height) :
    byNumber[r.code]? = some r := by
  cases r with
  | level l height => exact absurd rfl (h l height)
  | _ => rfl

theorem code_lt_of_ne_level {r : Rule} (h : ∀ l height, r ≠ level l height) : r.code < 1024 := by
  have hlength : byNumber.length = 204 := rfl
  have hlt : r.code < byNumber.length := (List.getElem?_eq_some_iff.mp (byNumber_code h)).1
  omega

theorem code_level (l : Ladder) (height : Nat) :
    (level l height).code = 1024 + l.index + 4 * height :=
  rfl

theorem index_lt (l : Ladder) : l.index < 4 := by
  cases l <;> decide

theorem index_injective {l l' : Ladder} (h : l.index = l'.index) : l = l' := by
  revert h
  cases l <;> cases l' <;> decide

theorem code_lt {r : Rule} (h : r.isKnown = true) : r.code < 2048 := by
  by_cases hlevel : ∃ l height, r = level l height
  · obtain ⟨l, height, rfl⟩ := hlevel
    have hheight : height ≤ l.height := of_decide_eq_true h
    have htop : l.height ≤ 11 := by cases l <;> decide
    have hindex := index_lt l
    rw [code_level]
    omega
  · have hlt := code_lt_of_ne_level fun l height heq ↦ hlevel ⟨l, height, heq⟩
    omega

/-- The numbers of the rules tell them apart. -/
theorem code_injective {r r' : Rule} (h : r.code = r'.code) : r = r' := by
  by_cases hlevel : ∃ l height, r = level l height
  · obtain ⟨l, height, rfl⟩ := hlevel
    have hindex := index_lt l
    rw [code_level] at h
    by_cases hlevel' : ∃ l height, r' = level l height
    · obtain ⟨l', height', rfl⟩ := hlevel'
      have hindex' := index_lt l'
      rw [code_level] at h
      rw [index_injective (by omega : l.index = l'.index), (by omega : height = height')]
    · have hlt := code_lt_of_ne_level fun l height heq ↦ hlevel' ⟨l, height, heq⟩
      omega
  · have hne := fun l height heq ↦ hlevel ⟨l, height, heq⟩
    have hlt := code_lt_of_ne_level hne
    have hne' : ∀ l height, r' ≠ level l height := by
      rintro l height rfl
      rw [code_level] at h
      omega
    exact Option.some.inj ((byNumber_code hne).symm.trans (h ▸ byNumber_code hne'))

end Rule

/-! Outcomes -/

/-- The tokens of a match for which the builders ran have a shape. Nothing is said of a match that
was only looked ahead for: its tokens are not used. -/
def Outcome.Yields (builds : Bool) (s : Shape) : Outcome → Prop
  | .matched _ t => builds = true → HasShape s t
  | .failed | .faulty _ | .exhausted => True

namespace Outcome

variable {builds : Bool} {s s' : Shape} {o : Outcome}

theorem yields_of_not (h : ¬builds = true) (o : Outcome) : o.Yields builds s := by
  cases o with
  | matched => exact fun hbuilds ↦ absurd hbuilds h
  | _ => exact True.intro

theorem Yields.mapTokens (ho : o.Yields builds s) {f : Tokens → Tokens}
    (hf : ∀ t, HasShape s t → HasShape s' (f t)) : (o.mapTokens f).Yields builds s' := by
  cases o with
  | matched => exact fun hbuilds ↦ hf _ (ho hbuilds)
  | _ => exact True.intro

theorem Yields.imp (ho : o.Yields builds s) (h : ∀ t, HasShape s t → HasShape s' t) :
    o.Yields builds s' := by
  cases o with
  | matched => exact fun hbuilds ↦ h _ (ho hbuilds)
  | _ => exact True.intro

theorem Yields.built (ho : o.Yields builds s) {b : Builder} (hb : b.accepts s = true) :
    (if builds then o.built b else o).Yields builds ⟨b.role s.items, []⟩ := by
  split
  · next hbuilds =>
    cases o with
    | matched d t =>
      have hsuits := Builder.apply_suits hb (ho hbuilds)
      unfold Outcome.built
      dsimp only
      split
      · next vs heq =>
        rw [heq] at hsuits
        exact fun _ ↦ hasShape_ofList hsuits []
      · exact True.intro
      · exact True.intro
    | _ => exact True.intro
  · next hbuilds => exact yields_of_not hbuilds o

theorem yields_ofLexeme (found : Option (Cursor × Option String)) :
    (ofLexeme found).Yields builds .operands := by
  rcases found with _ | ⟨c, _ | s⟩
  · exact True.intro
  · exact fun _ ↦ hasShape_empty _
  · exact fun _ ↦ hasShape_one rfl []

end Outcome

theorem hasShape_labelled {name : String} {extent : Extent} {s : Shape} {t : Tokens}
    (ht : HasShape s t) (hrole : s.items.within (s.roleOf name) = true) :
    HasShape s (labelled name extent t) := by
  have hitem {v : Value} (hv : v ∈ t.items) : v.suits (s.roleOf name) = true :=
    Value.suits_mono hrole (ht.items v hv)
  cases extent with
  | whole =>
    refine ht.addLabel (List.forall_mem_singleton.mpr ?_)
    exact (suits_tokens_iff _).mpr ⟨fun _ hv ↦ hitem hv, fun _ hl ↦ (nomatch hl)⟩
  | first =>
    unfold labelled
    dsimp only
    split
    · next heq =>
      have hempty : HasShape s (.mk t.items (Tokens.addLabel name [.tokens .empty] t.labels)) :=
        ht.addLabel (List.forall_mem_singleton.mpr rfl)
      rwa [heq] at hempty
    · exact ht
    · next v _ heq =>
      exact ht.addLabel (List.forall_mem_singleton.mpr (hitem (heq ▸ List.mem_cons_self)))

/-! Computations with a memory -/

/-- What is remembered for a rule has the shape of the rule. -/
def RemembersShapes (memory : Memory) : Prop :=
  ∀ (r : Rule) (mode : Mode) (c : Cursor) (o : Outcome), r.isKnown = true →
    memory[memoryKey r mode c]? = some o → o.Yields mode.builds r.shape

/-- The result is as stated, and the memory keeps to the shapes of the rules. -/
def Safe {α : Type} (x : StateM Memory α) (Q : α → Prop) : Prop :=
  ∀ memory : Memory, RemembersShapes memory →
    Q (Id.run (x.run memory)).1 ∧ RemembersShapes (Id.run (x.run memory)).2

namespace Safe

variable {α β : Type} {x : StateM Memory α} {P : α → Prop} {Q : β → Prop}

theorem pure {a : α} (ha : P a) : Safe (Pure.pure a) P :=
  fun _ hmemory ↦ ⟨ha, hmemory⟩

theorem bind (hx : Safe x P) {f : α → StateM Memory β} (hf : ∀ a, P a → Safe (f a) Q) :
    Safe (x >>= f) Q := by
  intro memory hmemory
  obtain ⟨ha, hmemory'⟩ := hx memory hmemory
  exact hf _ ha _ hmemory'

theorem imp (hx : Safe x P) {P' : α → Prop} (h : ∀ a, P a → P' a) : Safe x P' :=
  fun memory hmemory ↦ ⟨h _ (hx memory hmemory).1, (hx memory hmemory).2⟩

theorem get : Safe MonadState.get RemembersShapes :=
  fun _ hmemory ↦ ⟨hmemory, hmemory⟩

end Safe

/-! Patterns -/

section

variable {s s' : Shape} {builds : Bool}

theorem safe_repeated {step : Cursor → StateM Memory Outcome}
    (hstep : ∀ c, Safe (step c) (Outcome.Yields builds s)) (n : Nat) (c : Cursor) {t : Tokens}
    (ht : builds = true → HasShape s t) : Safe (repeated step n c t) (Outcome.Yields builds s) := by
  induction n generalizing c t with
  | zero => exact .pure ht
  | succ n ih =>
    rw [repeated]
    refine .bind (hstep c) fun o ho ↦ ?_
    cases o with
    | matched d u => exact ih d fun hbuilds ↦ (ht hbuilds).append (ho hbuilds)
    | failed => exact .pure ht
    | _ => exact .pure True.intro

theorem safe_searched {stop : Cursor → StateM Memory Outcome}
    (hstop : ∀ c, Safe (stop c) (Outcome.Yields false s)) (start : Cursor) (n : Nat) (c : Cursor) :
    Safe (searched stop start n c) (Outcome.Yields builds .operands) := by
  induction n generalizing c with
  | zero => exact .pure True.intro
  | succ n ih =>
    rw [searched]
    refine .bind (hstop c) fun o _ ↦ ?_
    cases o with
    | matched d u => exact .pure fun _ ↦ hasShape_one rfl []
    | failed =>
      dsimp only
      split
      · exact .pure True.intro
      · exact ih c.step
    | _ => exact .pure True.intro

theorem safe_preferred {longer shorter : StateM Memory Outcome}
    (hlonger : Safe longer (Outcome.Yields builds s))
    (hshorter : Safe shorter (Outcome.Yields builds s)) (longerEnd shorterEnd : Nat) :
    Safe (preferred longer shorter longerEnd shorterEnd) (Outcome.Yields builds s) := by
  unfold preferred
  refine .bind hlonger fun o ho ↦ ?_
  cases o with
  | matched c t =>
    dsimp only
    split
    · exact .pure ho
    · refine .bind hshorter fun o' ho' ↦ ?_
      cases o' with
      | matched d u =>
        dsimp only
        split
        · exact .pure ho'
        · exact .pure ho
      | failed => exact .pure ho
      | _ => exact .pure True.intro
  | failed => exact hshorter
  | _ => exact .pure True.intro

theorem hasShape_label {name : String} {extent : Extent} {p : Pattern} {t : Tokens}
    (ht : HasShape p.shape t) :
    HasShape (Pattern.label name extent p).shape (labelled name extent t) := by
  unfold Pattern.shape
  split
  · next hitems =>
    refine hasShape_labelled ht ?_
    rw [eq_of_beq hitems]
    rfl
  · refine hasShape_labelled (ht.mono ?_ fun _ h ↦ List.mem_cons_of_mem _ h) ?_
    · simp [Role.within]
    · simp [Role.within, Shape.roleOf]

section

variable {call : Rule → Mode → Cursor → StateM Memory Outcome}

/-- The pattern that reaches further is run again, for its tokens. -/
theorem safe_longest {a b : Pattern} {c : Cursor}
    (ha : ∀ mode, Safe (a.run call true mode c) (Outcome.Yields mode.builds a.shape))
    (hb : ∀ mode, Safe (b.run call true mode c) (Outcome.Yields mode.builds b.shape)) (skip : Bool)
    (mode : Mode) : Safe ((Pattern.longest a b).run call skip mode c)
      (Outcome.Yields mode.builds (Pattern.longest a b).shape) := by
  have hleft : Safe (a.run call true mode c)
      (Outcome.Yields mode.builds (Pattern.longest a b).shape) :=
    (ha mode).imp fun _ ho ↦ ho.imp fun _ ht ↦ ht.join_left b.shape
  have hright : Safe (b.run call true mode c)
      (Outcome.Yields mode.builds (Pattern.longest a b).shape) :=
    (hb mode).imp fun _ ho ↦ ho.imp fun _ ht ↦ ht.join_right a.shape
  rw [Pattern.run]
  refine .bind (ha mode.look) fun x _ ↦ .bind (hb mode.look) fun y _ ↦ ?_
  cases x with
  | matched d t =>
    cases y with
    | matched e u =>
      dsimp only
      split
      · split
        · exact safe_preferred hright hleft e.offset d.offset
        · exact safe_preferred hleft hright d.offset e.offset
      · next hbuilds => exact .pure (Outcome.yields_of_not hbuilds _)
    | failed =>
      dsimp only
      split
      · exact hleft
      · next hbuilds => exact .pure (Outcome.yields_of_not hbuilds _)
    | _ => exact .pure True.intro
  | failed =>
    cases y with
    | matched e u =>
      dsimp only
      split
      · exact hright
      · next hbuilds => exact .pure (Outcome.yields_of_not hbuilds _)
    | _ => exact .pure True.intro
  | _ => cases y <;> exact .pure True.intro

theorem safe_chain {operand op right : Pattern} {b : Option Builder} {mode : Mode}
    (hoperand : ∀ c, Safe (operand.run call true mode c)
      (Outcome.Yields mode.builds operand.shape))
    (hop : ∀ c, Safe (op.run call true mode c) (Outcome.Yields mode.builds op.shape))
    (hright : ∀ c, Safe (right.run call true mode c) (Outcome.Yields mode.builds right.shape))
    (hb : b.all (fun b ↦ b.accepts ⟨(Pattern.chained operand op right).whole, []⟩) = true)
    (skip : Bool) (c : Cursor) : Safe ((Pattern.chain operand op right b).run call skip mode c)
      (Outcome.Yields mode.builds (Pattern.chain operand op right b).shape) := by
  rw [Pattern.run]
  refine .bind (hoperand c) fun o ho ↦ ?_
  cases o with
  | matched d t =>
    extract_lets tail
    have htail (e : Cursor) : Safe (tail e)
        (Outcome.Yields mode.builds (Pattern.chained operand op right)) := by
      refine .bind (hop e) fun o ho ↦ ?_
      cases o with
      | matched e₁ u =>
        refine .bind (hright e₁) fun o' ho' ↦ ?_
        cases o' with
        | matched e₂ v =>
          refine .pure fun hbuilds ↦ HasShape.join_right ?_ operand.shape
          exact ((ho hbuilds).join_left right.shape).append ((ho' hbuilds).join_right op.shape)
        | _ => exact .pure True.intro
      | _ => exact .pure True.intro
    refine .bind (safe_repeated htail _ d fun hbuilds ↦ (ho hbuilds).join_left _) fun o' ho' ↦ ?_
    cases o' with
    | matched e u =>
      dsimp only
      split
      · exact .pure fun hbuilds ↦ (ho hbuilds).join_left _
      · have hlist : (Outcome.matched e (.one (.tokens u))).Yields mode.builds
            ⟨(Pattern.chained operand op right).whole, []⟩ := fun hbuilds ↦
          hasShape_one (ho' hbuilds).whole []
        cases b with
        | some b => exact .pure ((hlist.built hb).imp fun _ ht ↦ ht.join_right operand.shape)
        | none => exact .pure (hlist.imp fun _ ht ↦ ht.join_right operand.shape)
    | _ => exact .pure True.intro
  | _ => exact .pure True.intro

/-- A match of a well-formed pattern has the shape of the pattern, if that holds of the rules. -/
theorem Pattern.safe_run
    (hcall : ∀ r mode c, r.isKnown = true →
      Safe (call r mode c) (Outcome.Yields mode.builds r.shape))
    {p : Pattern} (hp : p.wellFormed = true) (skip : Bool) (mode : Mode) (c : Cursor) :
    Safe (p.run call skip mode c) (Outcome.Yields mode.builds p.shape) := by
  induction p generalizing skip mode c with
  | lexeme l => exact .pure (Outcome.yields_ofLexeme _)
  | rule r => exact hcall r mode _ hp
  | seq a b iha ihb =>
    rw [wellFormed, Bool.and_eq_true] at hp
    rw [Pattern.run]
    refine .bind (iha hp.1 false mode _) fun o ho ↦ ?_
    cases o with
    | matched d t =>
      refine .bind (ihb hp.2 true mode d) fun o' ho' ↦ ?_
      cases o' with
      | matched e u =>
        refine .pure fun hbuilds ↦ ?_
        exact ((ho hbuilds).join_left b.shape).append ((ho' hbuilds).join_right a.shape)
      | _ => exact .pure True.intro
    | _ => exact .pure True.intro
  | first a b iha ihb =>
    rw [wellFormed, Bool.and_eq_true] at hp
    rw [Pattern.run]
    refine .bind (iha hp.1 true mode c) fun o ho ↦ ?_
    cases o with
    | matched d t => exact .pure fun hbuilds ↦ (ho hbuilds).join_left b.shape
    | failed =>
      exact (ihb hp.2 true mode c).imp fun _ ho' ↦ ho'.imp fun _ ht ↦ ht.join_right a.shape
    | _ => exact .pure True.intro
  | longest a b iha ihb =>
    rw [wellFormed, Bool.and_eq_true] at hp
    exact safe_longest (iha hp.1 true · c) (ihb hp.2 true · c) skip mode
  | optional p ih =>
    rw [Pattern.run]
    refine .bind (ih hp false mode _) fun o ho ↦ ?_
    cases o with
    | matched => exact .pure ho
    | failed => exact .pure fun _ ↦ hasShape_empty _
    | _ => exact .pure True.intro
  | orBlank p ih =>
    rw [Pattern.run]
    refine .bind (ih hp false mode _) fun o ho ↦ ?_
    cases o with
    | matched => exact .pure ho
    | failed => exact .pure fun _ ↦ hasShape_one rfl _
    | _ => exact .pure True.intro
  | many p ih =>
    rw [Pattern.run]
    refine .bind (ih hp false mode _) fun o ho ↦ ?_
    cases o with
    | matched d t => exact safe_repeated (ih hp true mode) d.rest.length d ho
    | failed => exact .pure fun _ ↦ hasShape_empty _
    | _ => exact .pure True.intro
  | atLeastOne p ih =>
    rw [Pattern.run]
    refine .bind (ih hp false mode _) fun o ho ↦ ?_
    cases o with
    | matched d t => exact safe_repeated (ih hp true mode) d.rest.length d ho
    | _ => exact .pure True.intro
  | absent p ih =>
    rw [Pattern.run]
    refine .bind (ih hp true mode.look c) fun o _ ↦ ?_
    cases o with
    | failed => exact .pure fun _ ↦ hasShape_empty _
    | _ => exact .pure True.intro
  | ahead p ih =>
    rw [Pattern.run]
    refine .bind (ih hp true mode _) fun o _ ↦ ?_
    cases o with
    | matched => exact .pure fun _ ↦ hasShape_empty _
    | _ => exact .pure True.intro
  | upTo p ih => exact safe_searched (ih hp false mode.look) _ _ _
  | group p ih =>
    refine .bind (ih hp skip mode c) fun o ho ↦ .pure ?_
    exact ho.mapTokens fun _ ht ↦ hasShape_one ht.whole []
  | drop p ih =>
    refine .bind (ih hp skip mode c) fun o ho ↦ .pure ?_
    exact ho.mapTokens fun _ _ ↦ hasShape_empty _
  | joined p ih =>
    refine .bind (ih hp false mode.tighten _) fun o ho ↦ .pure ?_
    exact ho.mapTokens fun _ _ ↦ hasShape_one rfl []
  | joinedLoosely p ih =>
    refine .bind (ih hp false mode _) fun o ho ↦ .pure ?_
    exact ho.mapTokens fun _ _ ↦ hasShape_one rfl []
  | tight p ih => exact ih hp false mode.tighten c
  | label name extent p ih =>
    refine .bind (ih hp skip mode c) fun o ho ↦ .pure ?_
    exact ho.mapTokens fun _ ht ↦ hasShape_label ht
  | build b p ih =>
    rw [wellFormed, Bool.and_eq_true] at hp
    exact .bind (ih hp.1 skip mode c) fun o ho ↦ .pure (ho.built hp.2)
  | chain operand op right b ihoperand ihop ihright =>
    simp only [wellFormed, Bool.and_eq_true] at hp
    obtain ⟨⟨⟨hoperand, hop⟩, hright⟩, hb⟩ := hp
    exact safe_chain (ihoperand hoperand true mode) (ihop hop true mode)
      (ihright hright true mode) hb skip c

end

end

/-! Rules with a memory -/

theorem memoryKey_injective {r r' : Rule} (hr : r.isKnown = true) (hr' : r'.isKnown = true)
    {mode mode' : Mode} {c c' : Cursor} (h : memoryKey r mode c = memoryKey r' mode' c') :
    r = r' ∧ mode = mode' ∧ c.offset = c'.offset := by
  have hcode := r.code_lt hr
  have hcode' := r'.code_lt hr'
  have hbuilds := mode.builds.toNat_le
  have hbuilds' := mode'.builds.toNat_le
  have htight := mode.tight.toNat_le
  have htight' := mode'.tight.toNat_le
  unfold memoryKey at h
  have hsame : mode.builds.toNat = mode'.builds.toNat ∧ mode.tight.toNat = mode'.tight.toNat := by
    omega
  refine ⟨Rule.code_injective (by omega), ?_, by omega⟩
  obtain ⟨builds, tight⟩ := mode
  obtain ⟨builds', tight'⟩ := mode'
  revert hsame
  cases builds <;> cases builds' <;> cases tight <;> cases tight' <;> decide

theorem RemembersShapes.insert {memory : Memory} (hmemory : RemembersShapes memory) {r : Rule}
    (hr : r.isKnown = true) {mode : Mode} {o : Outcome} (ho : o.Yields mode.builds r.shape)
    (c : Cursor) : RemembersShapes (memory.insert (memoryKey r mode c) o) := by
  intro r' mode' c' o' hr' hfind
  rw [Std.TreeMap.getElem?_insert] at hfind
  split at hfind
  · next hkey =>
    obtain ⟨rfl, rfl, -⟩ := memoryKey_injective hr hr' (Nat.compare_eq_eq.mp hkey)
    cases hfind
    exact ho
  · exact hmemory r' mode' c' o' hr' hfind

theorem remembersShapes_empty : RemembersShapes {} := by
  intro r mode c o _ hfind
  rw [Std.TreeMap.getElem?_emptyc] at hfind
  exact nomatch hfind

theorem safe_recallRule (depth : Nat) {r : Rule} (hr : r.isKnown = true) (mode : Mode)
    (c : Cursor) : Safe (recallRule depth r mode c) (Outcome.Yields mode.builds r.shape) := by
  induction depth generalizing r mode c with
  | zero => exact .pure True.intro
  | succ depth ih =>
    obtain ⟨hwell, hwithin⟩ := Rule.wellFormed_ofRule hr
    rw [recallRule]
    refine .bind .get fun memory hmemory ↦ ?_
    dsimp only
    split
    · next o ho => exact .pure (hmemory r mode c o hr ho)
    · have hrun := Pattern.safe_run (fun r mode c hr ↦ ih hr mode c) hwell false mode c
      refine .bind (hrun.imp fun o ho ↦ ho.imp fun t ht ↦ ht.of_within hwithin) fun o ho ↦ ?_
      have hstore : Safe (modify fun memory ↦ memory.insert (memoryKey r mode c) o)
          fun _ ↦ True := fun memory hmemory ↦ ⟨True.intro, hmemory.insert hr ho c⟩
      cases o with
      | exhausted => exact .pure True.intro
      | _ => exact .bind hstore fun _ _ ↦ .pure ho

theorem recalled_yields (depth : Nat) {r : Rule} (hr : r.isKnown = true) (mode : Mode)
    (c : Cursor) :
    (Id.run ((recallRule depth r mode c).run {})).1.Yields mode.builds r.shape :=
  (safe_recallRule depth hr mode c {} remembersShapes_empty).1

/-- What is read with a rule has the shape of the rule. -/
theorem readFront_hasShape {r : Rule} (hr : r.isKnown = true) {text : String} {reading : Reading}
    (h : readFront r text = .ok reading) : HasShape r.shape reading.tokens := by
  let cs := Text.expandTabs text.toList
  have hyields := recalled_yields (depthBound cs.length) hr .normal
    (enter (.rule r) true .normal (Cursor.start cs))
  unfold readFront at h
  dsimp only at h
  split at h
  · next d t heq =>
    rw [heq] at hyields
    cases h
    exact hyields rfl
  all_goals exact nomatch h

theorem readEchoing_hasShape {r : Rule} (hr : r.isKnown = true) {all : Bool} {text : String}
    {t : Tokens} (h : (readEchoing r all text).1 = .ok t) : HasShape r.shape t := by
  unfold readEchoing at h
  split at h
  · exact nomatch h
  · next reading hread =>
    have hshape := readFront_hasShape hr hread
    dsimp only at h
    split at h
    · unfold Reading.complete at h
      dsimp only at h
      split at h
      · cases h
        exact hshape
      · exact nomatch h
    · cases h
      exact hshape

theorem findFrom_hasShape {r : Rule} (hr : r.isKnown = true) (depth n : Nat) (c : Cursor) :
    ∀ t ∈ (findFrom r depth n c).1, HasShape r.shape t := by
  induction n generalizing c with
  | zero => exact fun _ ht ↦ nomatch ht
  | succ n ih =>
    have hyields := recalled_yields depth hr .normal (passBlanks r.lead .normal c)
    have honward (d : Cursor) : ∀ t ∈ (if d.atEnd then ([], none)
        else findFrom r depth n d.step : List Tokens × Option Fault).1, HasShape r.shape t := by
      split
      · exact fun _ ht ↦ nomatch ht
      · exact ih d.step
    rw [findFrom]
    split
    · next d u heq =>
      rw [heq] at hyields
      split
      · exact List.forall_mem_cons.mpr ⟨hyields rfl, ih d⟩
      · exact honward _
    · exact honward _
    · exact fun _ ht ↦ nomatch ht
    · exact fun _ ht ↦ nomatch ht

end Grammar

end VbaTrace
