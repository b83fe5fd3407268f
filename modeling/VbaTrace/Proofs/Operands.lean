import VbaTrace.Proofs.Routines

/-!
Evaluation of operands, operators and expression nodes. What an expression gives is of the kind that
its operands give, in every logic of evaluations (`holds_evalOperation` and the like): only what a
logic says of the operands and of names is asked for. Where operands are evaluated again because
they did not combine, this holds of all attempts.

In the logic of roles, given an evaluator that respects them, each rule for an expression makes only
the changes of an operand and gives an operand.
-/

set_option autoImplicit false

namespace VbaTrace.Semantics

section

variable {P : Value → Prop} (l : EvalLogic P) {evaluate : Evaluator}

theorem holds_fetchOr {name : String} {otherwise : Eval Value}
    (hname : l.Holds (fetch (.text name)) P) (h : l.Holds otherwise P) :
    l.Holds (fetchOr name otherwise) P :=
  l.handle hname fun _ ↦ h

theorem holds_evalOperands {vs : List Value} (h : ∀ v ∈ vs, l.Holds (evalOperand evaluate v) P) :
    l.Holds (evalOperands evaluate vs) fun ws ↦ ∀ w ∈ ws, P w := by
  induction vs with
  | nil => exact l.pure fun _ h ↦ nomatch h
  | cons v vs ih =>
    obtain ⟨hv, hvs⟩ := List.forall_mem_cons.mp h
    refine l.bind hv fun w hw ↦ l.bind (ih hvs) fun ws hws ↦ ?_
    exact l.pure (List.forall_mem_cons.mpr ⟨hw, hws⟩)

theorem holds_truth (v : Value) : l.Holds (truth v) fun _ ↦ True :=
  l.bind (l.read_opened v) fun _ _ ↦ l.pure True.intro

theorem holds_shownArguments (args : List Value) : l.Holds (shownArguments args) fun _ ↦ True :=
  l.get (fun _ _ ↦ l.pure True.intro) fun _ _ h ↦ by simp only [h.heap]

theorem holds_evalMember {object last : Value} {path : List Value}
    (hobject : l.Holds (evalOperand evaluate object) P)
    (hpart : ∀ part, lastMember path last = some part → l.Holds (evalOperand evaluate part) P)
    (htext : l.Holds (evalOperand evaluate (.text (Node.member object path last).render)) P) :
    l.Holds (evalMember evaluate object path last) P := by
  refine l.bind hobject fun _ _ ↦ ?_
  split
  · exact l.throw _
  · next part heq =>
    refine l.bind (hpart part heq) fun v hv ↦ ?_
    split
    · exact l.pure hv
    · exact htext

/-! Comparisons and conditions -/

section

variable {Q : Value → Prop}

theorem holds_evalSide {v : Value} (h : l.Holds (evalOperand evaluate v) Q) (hv : Q v) :
    l.Holds (evalSide evaluate v) fun side ↦ Q side.value :=
  l.handle (l.bind h fun _ hw ↦ l.pure hw) fun _ ↦ l.pure hv

variable [ValueKind Q] {lhs op rhs : Value} (hlhs : l.Holds (evalOperand evaluate lhs) Q)
  (hrhs : l.Holds (evalOperand evaluate rhs) Q)

include hrhs

theorem holds_evalNegation : l.Holds (evalNegation evaluate op rhs) Q := by
  refine l.bind (Q := fun _ ↦ True) ?_ fun found _ ↦ ?_
  · refine l.handle ?_ fun _ ↦ l.pure True.intro
    exact l.bind hrhs fun _ _ ↦ l.pure True.intro
  · split
    · exact l.pure (ValueKind.text _)
    · refine l.bind (l.ofExcept fun _ _ ↦ True.intro) fun _ _ ↦ ?_
      split
      · exact l.bind (holds_truth l _) fun _ _ ↦ l.pure (ValueKind.bool _)
      · exact l.pure (ValueKind.text _)

include hlhs

theorem holds_evalComparison (hl : Q lhs) (hr : Q rhs) :
    l.Holds (evalComparison evaluate lhs op rhs) Q := by
  refine l.bind (holds_evalSide l hlhs hl) fun a ha ↦ ?_
  split
  · exact l.pure ha
  · refine l.bind (holds_evalSide l hrhs hr) fun b _ ↦ ?_
    refine l.get (fun m _ ↦ ?_) fun _ _ h ↦ by simp only [h.heap]
    exact l.bind (l.ofExcept fun _ _ ↦ True.intro) fun _ _ ↦ l.pure (ValueKind.bool _)

theorem holds_evalCondition (hl : Q lhs) (hr : Q rhs) :
    l.Holds (evalCondition evaluate lhs op rhs) Q := by
  unfold evalCondition
  split
  · exact holds_evalNegation l hrhs
  · refine l.bind (holds_evalSide l hlhs hl) fun a ha ↦ ?_
    split
    · exact l.pure ha
    · refine l.bind (holds_evalSide l hrhs hr) fun b hb ↦ ?_
      refine l.bind (l.ofExcept fun _ _ ↦ True.intro) fun word _ ↦ ?_
      split
      · refine l.bind (holds_truth l _) fun holds _ ↦ l.pure ?_
        split
        · exact hb
        · exact ha
      · split
        · refine l.bind (holds_truth l _) fun holds _ ↦ l.pure ?_
          split
          · exact ha
          · exact hb
        · split
          · refine l.get (fun _ _ ↦ ?_) fun _ _ h ↦ by simp only [h.heap]
            exact l.pure (ValueKind.bool _)
          · exact l.pure (ValueKind.bool _)

end

/-! Texts -/

variable [ValueKind P]

theorem of_decodedText {v : Value} (hv : P v) : P (decodedText v) := by
  unfold decodedText
  split
  · split
    · exact ValueKind.text _
    · exact hv
  · exact hv

theorem holds_itemProperty (s : String) : l.Holds (itemProperty s) P := by
  refine l.get (fun m hm ↦ ?_) fun _ _ h ↦ by simp only [h.itemProperties]
  split
  · exact l.pure (ValueKind.text _)
  · next properties hproperties =>
    split
    · next v hv =>
      exact l.bind (l.ensureWritable v) fun _ _ ↦
        l.pure (hm.itemProperties properties hproperties _ v hv)
    · exact l.pure (ValueKind.text _)

/-- What is run is the procedure that a text names behind its last dot. -/
theorem holds_dottedText {s : String} (hname : l.Holds (fetch (.text (Text.lower s))) P)
    (hcall : l.Holds (do evaluate (← fetch (.text (Text.afterLast "." (Text.lower s)))) none) P) :
    l.Holds (dottedText evaluate s) P := by
  refine holds_fetchOr l hname ?_
  refine l.bind (Q := fun found ↦ ∀ v, found = some v → P v) ?_ fun found hfound ↦ ?_
  · refine l.handle ?_ fun _ ↦ l.pure fun _ h ↦ nomatch h
    rw [← bind_assoc]
    exact l.bind hcall fun v hv ↦ l.pure fun _ h ↦ Option.some.inj h ▸ hv
  · split
    · exact l.pure (hfound _ rfl)
    · split
      · exact holds_itemProperty l _
      · exact l.pure (ValueKind.text _)

/-- The variables that a text may stand for. -/
def namesInText (s : String) : List String :=
  [Text.replace ".nodetypedvalue" ".text" (Text.lower s),
    Text.replace ".selecteditem" ".rapt.value" (Text.lower s), Text.lower s]

theorem holds_evalText {s : String}
    (hnames : ∀ name ∈ namesInText s, l.Holds (fetch (.text name)) P)
    (hcall : l.Holds (do evaluate (← fetch (.text (Text.afterLast "." (Text.lower s)))) none) P) :
    l.Holds (evalText evaluate s) P := by
  simp only [namesInText, List.forall_mem_cons] at hnames
  unfold evalText
  dsimp only
  split
  · refine l.handle ?_ fun _ ↦ l.pure (ValueKind.text _)
    exact l.bind hnames.1 fun v hv ↦ l.pure (of_decodedText hv)
  · split
    · exact holds_fetchOr l hnames.2.1 (l.pure (ValueKind.text _))
    · split
      · exact holds_dottedText l hnames.2.2.1 hcall
      · exact l.pure (ValueKind.text _)

/-! Operators -/

section

variable {operands : List Value} (h : ∀ v ∈ operands, l.Holds (evalOperand evaluate v) P)

include h

theorem holds_combine {operation : Value → Value → Except Fault Value}
    (ho : ∀ {v w}, P v → P w → Gives P (operation v w)) :
    l.Holds (combine evaluate operation operands) P := by
  refine l.bind (holds_evalOperands l h) fun values hvalues ↦ ?_
  refine l.get (fun m hm ↦ ?_) fun _ _ h ↦ by simp only [h.heap]
  refine l.ofExcept (Operator.gives_fold ho (List.forall_mem_map.mpr fun v hv ↦ ?_))
  exact hm.heap.opened (hvalues v hv)

theorem holds_combineResolved {operation : Value → Value → Except Fault Value}
    (ho : ∀ v w, Gives P (operation v w)) :
    l.Holds (combineResolved evaluate operation operands) P := by
  refine l.bind (holds_evalOperands l h) fun values hvalues ↦ ?_
  refine l.get (fun m hm ↦ ?_) fun _ _ h ↦ by simp only [h.heap]
  refine l.ofExcept (Operator.gives_fold (fun _ _ ↦ ho _ _) (List.forall_mem_map.mpr fun v hv ↦ ?_))
  exact hm.heap.resolve (hvalues v hv)

/-- The second attempt with whole numbers. -/
theorem holds_combineInts (op : Operator) : l.Holds (combine evaluate op.applyToInts operands) P :=
  holds_combine l h fun _ _ ↦ op.gives_applyToInts _ _

theorem holds_ending {operation : Value → Value → Except Fault Value}
    (ho : ∀ {v w}, P v → P w → Gives P (operation v w)) :
    l.Holds (endingProgram (combine evaluate operation operands)) P :=
  l.handle (holds_combine l h ho) fun _ ↦ l.throw _

theorem holds_evalSum : l.Holds (evalSum evaluate operands) P := by
  refine l.handle (holds_ending l h Value.gives_add) fun _ ↦ ?_
  refine l.handle (holds_combineInts l h .add) fun _ ↦ holds_combineResolved l h fun _ _ ↦ ?_
  exact .bind fun _ _ ↦ .bind fun _ _ ↦ .ok (ValueKind.text _)

theorem holds_evalBitwise (op : Operator) : l.Holds (evalBitwise evaluate op operands) P := by
  refine l.handle (holds_ending l h op.gives_apply) fun _ ↦ ?_
  exact l.handle (holds_combineInts l h op) fun _ ↦ l.pure (ValueKind.int 0)

theorem holds_evalEqv : l.Holds (evalEqv evaluate operands) P :=
  l.handle (holds_ending l h fun _ _ ↦ Value.gives_bitEqv) fun _ ↦ l.pure (ValueKind.int 0)

theorem holds_subtractOrdinals : l.Holds (subtractOrdinals evaluate operands) P := by
  refine l.bind (holds_evalOperands l h) fun values _ ↦ ?_
  split
  · exact l.throw _
  · exact l.pure (ValueKind.int _)
  · exact l.pure (ValueKind.int 0)

theorem holds_evalDifference : l.Holds (evalDifference evaluate operands) P := by
  refine l.handle (holds_combine l h fun _ _ ↦ Value.gives_subtract) fun _ ↦ ?_
  exact l.handle (holds_combineInts l h .subtract) fun _ ↦ holds_subtractOrdinals l h

theorem holds_evalProduct (op : Operator) : l.Holds (evalProduct evaluate op operands) P := by
  refine l.handle (holds_combine l h op.gives_apply) fun _ ↦ ?_
  exact l.handle (holds_combineInts l h op) fun _ ↦ l.pure (ValueKind.int 0)

theorem holds_evalQuotient : l.Holds (evalQuotient evaluate operands) P := by
  refine l.handle (holds_combine l h fun _ _ ↦ Value.gives_divide) fun f ↦ ?_
  split
  · exact l.pure (ValueKind.text _)
  · exact l.handle (holds_combineInts l h .divide) fun _ ↦ l.pure (ValueKind.int 0)

theorem holds_evalConcatenation : l.Holds (evalConcatenation evaluate operands) P := by
  refine l.handle ?_ fun _ ↦ l.pure (ValueKind.text _)
  refine l.bind (holds_evalOperands l h) fun values _ ↦ ?_
  refine l.get (fun m _ ↦ ?_) fun _ _ h ↦ by simp only [h.heap]
  exact l.ofExcept (Gives.bind fun _ _ ↦ .ok (ValueKind.text _))

theorem holds_evalOperation (op : Operator) : l.Holds (evalOperation evaluate op operands) P := by
  cases op with
  | add => exact holds_evalSum l h
  | subtract => exact holds_evalDifference l h
  | multiply | floorDivide => exact holds_evalProduct l h _
  | divide => exact holds_evalQuotient l h
  | modulo => exact holds_combineResolved l h fun _ _ ↦ Value.gives_modulo
  | concatenate => exact holds_evalConcatenation l h
  | xor | and | or => exact holds_evalBitwise l h _
  | eqv => exact holds_evalEqv l h

end

/-! Expression nodes -/

theorem of_charText (n : Int) : P (charText n) := by
  unfold charText
  split
  · exact ValueKind.text _
  · exact ValueKind.text _

theorem of_charOfLiteral (s : String) : P (charOfLiteral s) := by
  unfold charOfLiteral
  split
  · split
    · next v _ _ =>
      cases v.asInt? with
      | none => exact ValueKind.text _
      | some n => exact of_charText n
    · exact ValueKind.text _
  · exact ValueKind.text _

section

variable {arg : Value} (h : l.Holds (evalOperand evaluate arg) P)

include h

theorem holds_evalChr : l.Holds (evalChr evaluate arg) P := by
  refine l.bind h fun v _ ↦ ?_
  split
  · exact l.bind (l.ensureWritable _) fun _ _ ↦ l.pure (of_charText _)
  · exact l.pure (of_charOfLiteral _)
  · exact l.throw _

theorem holds_evalAsc : l.Holds (evalAsc evaluate arg) P := by
  refine l.bind h fun v _ ↦ l.bind (l.read_opened v) fun w _ ↦ ?_
  split
  · exact l.throw _
  · exact l.throw _
  · split
    · exact l.pure (ValueKind.int _)
    · exact l.throw _
  · exact l.throw _

theorem holds_evalStrReverse : l.Holds (evalStrReverse evaluate arg) P := by
  refine l.bind h fun v hv ↦ l.bind (l.opened hv) fun w hw ↦ ?_
  have hreverse {vs : List Value} (hvs : ∀ v ∈ vs, P v) : P (.list vs.reverse) :=
    (ValueKind.list_iff _).mpr fun u hu ↦ hvs u (List.mem_reverse.mp hu)
  split
  · exact l.pure (ValueKind.text _)
  · exact l.pure (hreverse ((ValueKind.list_iff _).mp hw))
  · exact l.pure (hreverse (ValueKind.items hw))
  · exact l.throw _

theorem holds_evalEnviron : l.Holds (evalEnviron evaluate arg) P := by
  refine l.bind h fun v _ ↦ ?_
  exact l.bind (l.displayed v) fun _ _ ↦ l.pure (ValueKind.text _)

end

theorem mem_of_itemAt? {α : Type} {items : List α} {place : Int} {a : α}
    (h : itemAt? items place = some a) : a ∈ items := by
  unfold itemAt? at h
  split_ifs at h
  · exact List.mem_of_getElem? h
  · exact List.mem_of_getElem? h

theorem of_elementOf {items : List Value} (hitems : ∀ v ∈ items, P v) (place : Int) :
    P (elementOf items place) := by
  unfold elementOf
  split
  · next s => cases itemAt? s.toList place <;> exact ValueKind.text _
  · cases hitem : itemAt? items place with
    | none => exact ValueKind.text _
    | some v => exact hitems v (mem_of_itemAt? hitem)

theorem of_codeAt (s : String) (place : Value) : P (codeAt s place) := by
  unfold codeAt
  split
  · next n _ =>
    cases itemAt? s.toList n with
    | none => exact ValueKind.null
    | some c => exact ValueKind.int _
  · exact ValueKind.null

theorem holds_callValue {f : Value} (hf : P f) {args : List Value}
    (he : l.Holds (evaluate f (some args)) P) : l.Holds (callValue evaluate f args) P := by
  refine l.bind (l.opened hf) fun w hw ↦ ?_
  split
  · exact l.pure ValueKind.null
  · refine l.bind (l.ensureWritable _) fun _ _ ↦ l.bind (l.read_opened _) fun _ _ ↦ ?_
    refine l.bind (l.ofExcept fun _ _ ↦ True.intro) fun place _ ↦ ?_
    exact l.pure (of_elementOf ((ValueKind.list_iff _).mp hw) place)
  · exact l.pure ValueKind.null
  · exact l.bind (l.read_opened _) fun _ _ ↦ l.pure (of_codeAt _ _)
  · exact l.pure ValueKind.null
  · exact he

/-- No notable function has the name under which entry points are recorded. -/
theorem isEntryHeading_of_isNotable {name : String} (h : isNotable name = true) :
    (Value.text name).isEntryHeading = false := by
  have hheading : isNotable "Found Entry Point" = false := by decide +kernel
  refine beq_eq_false_iff_ne.mpr fun heq ↦ ?_
  rw [heq, hheading] at h
  exact Bool.noConfusion h

theorem holds_evalCall {name : String} {params : Value}
    (hparams : l.Holds (evalArguments evaluate params) fun ws ↦ ∀ w ∈ ws, P w)
    (hcall : ∀ args, (∀ v ∈ args, P v) → l.Holds (callNamed evaluate name args) P)
    (hrun : runNames.contains name = true → ∀ args, (∀ v ∈ args, P v) →
      l.Holds (runIndirectly evaluate args) P) :
    l.Holds (evalCall evaluate name params) P := by
  refine l.bind hparams fun args hargs ↦ l.bind (l.ensureWritable _) fun _ _ ↦ ?_
  have hcall : l.Holds
      (Eval.handle (callNamed evaluate name args) Fault.isMissing fun _ ↦
        if runNames.contains name then
          Eval.handle (runIndirectly evaluate args) Fault.isMissing fun _ ↦ return .null
        else return .null) P := by
    refine l.handle (hcall args hargs) fun _ ↦ ?_
    split
    · next hname => exact l.handle (hrun hname args hargs) fun _ ↦ l.pure ValueKind.null
    · exact l.pure ValueKind.null
  dsimp only
  split
  · next hnotable =>
    refine l.bind (holds_shownArguments l args) fun _ _ ↦ ?_
    exact l.bind (l.report (isEntryHeading_of_isNotable hnotable) _ _) fun _ _ ↦ hcall
  · exact hcall

theorem holds_evalElement {array index : Value} (harray : l.Holds (evalOperand evaluate array) P)
    (hindex : l.Holds (evalOperand evaluate index) P) :
    l.Holds (evalElement evaluate array index) P := by
  refine l.bind harray fun v hv ↦ l.bind hindex fun i _ ↦ l.bind (l.opened hv) fun w hw ↦ ?_
  split
  · split
    · exact l.pure (ValueKind.text _)
    · next items n _ _ =>
      refine l.pure ?_
      rw [List.getD_eq_getElem?_getD]
      cases hitem : items[n.toNat]? with
      | none => exact ValueKind.text _
      | some u => exact (ValueKind.list_iff _).mp hw u (List.mem_of_getElem? hitem)
  · exact l.pure (ValueKind.text _)

end

/-! Expressions respect roles -/

variable {strict : Prop} {role : Role} {evaluate : Evaluator}

/-- What a name stands for runs as an operand. -/
theorem ensures_called (he : Evaluates strict evaluate) (name : Value) {args : Arguments}
    (hargs : AdmitsArguments strict args) :
    Ensures strict .operand (do evaluate (← fetch name) args) (Admits strict .operand) :=
  (Ensures.fetch name).bind fun f hf ↦ he .operand f args hf hargs

theorem ensures_evalOperand (he : Evaluates strict evaluate) {v : Value}
    (hv : Admits strict .operand v) :
    Ensures strict .operand (evalOperand evaluate v) (Admits strict .operand) := by
  unfold evalOperand
  split
  · exact (Ensures.ensureWritable _).bind fun _ _ ↦ he .operand _ none hv admitsArguments_none
  · exact holds_evalText (Ensures.logic strict .operand) (fun _ _ ↦ .fetch _)
      (ensures_called he _ admitsArguments_none)
  · exact (Ensures.ensureWritable _).bind fun _ _ ↦ .pure hv

theorem ensures_evalOperands (he : Evaluates strict evaluate) {vs : List Value}
    (hvs : ∀ v ∈ vs, Admits strict .operand v) :
    Ensures strict .operand (evalOperands evaluate vs)
      fun ws ↦ ∀ w ∈ ws, Admits strict .operand w :=
  holds_evalOperands (Ensures.logic strict .operand) fun v hv ↦ ensures_evalOperand he (hvs v hv)

/-- The parts that a walk meets stand in the role of the whole. -/
theorem admits_walk? {v : Value} (hv : Admits strict role v) {vs : List Value}
    (h : v.walk? = some vs) : ∀ w ∈ vs, Admits strict role w := by
  unfold Value.walk? at h
  split at h
  · rw [← Option.some.inj h]
    exact List.forall_mem_map.mpr fun _ _ ↦ admits_text _
  · rw [← Option.some.inj h]
    exact (admits_list_iff _).mp hv
  · rw [← Option.some.inj h]
    exact (admits_tokens_iff _).mp hv
  · exact nomatch h

theorem ensures_walk {other : Role} {v : Value} (hv : Admits strict other v) :
    Ensures strict role (walk v) fun vs ↦ ∀ w ∈ vs, Admits strict other w := by
  refine (Ensures.opened hv).bind fun w hw ↦ ?_
  split
  · next vs hvs => exact .pure (admits_walk? hw hvs)
  · exact .throw _

theorem ensures_evalArguments (he : Evaluates strict evaluate) {args : Value}
    (hargs : Admits strict .operand args) :
    Ensures strict .operand (evalArguments evaluate args)
      fun ws ↦ ∀ w ∈ ws, Admits strict .operand w :=
  (ensures_walk hargs).bind fun _ hvs ↦ ensures_evalOperands he hvs

theorem ensures_truth (v : Value) : Ensures strict role (truth v) fun _ ↦ True :=
  holds_truth (Ensures.logic strict role) v

theorem ensures_equal (v w : Value) : Ensures strict role (equal v w) fun _ ↦ True :=
  Ensures.get.bind fun _ _ ↦ .pure True.intro

theorem ensures_evalName (he : Evaluates strict evaluate) (name : String) :
    Ensures strict .operand (evalName evaluate name) (Admits strict .operand) := by
  refine .handle ?_ fun _ ↦ .pure admits_empty
  refine (Ensures.fetch _).bind fun v hv ↦ (Ensures.ensureWritable v).bind fun _ _ ↦ ?_
  split
  · refine (he .operand v none hv admitsArguments_none).bind fun w hw ↦ ?_
    exact (Ensures.ensureWritable w).bind fun _ _ ↦ .pure hw
  · exact .pure hv

theorem ensures_evalMember (he : Evaluates strict evaluate) {object last : Value}
    {path : List Value} (hobject : Admits strict .operand object)
    (hpath : ∀ v ∈ path, Admits strict .operand v) (hlast : Admits strict .operand last) :
    Ensures strict .operand (evalMember evaluate object path last) (Admits strict .operand) := by
  refine holds_evalMember (Ensures.logic strict .operand) (ensures_evalOperand he hobject)
    (fun part hpart ↦ ensures_evalOperand he ?_) (ensures_evalOperand he (admits_text _))
  unfold lastMember at hpart
  split at hpart
  · exact Option.some.inj hpart ▸ hlast
  · exact hpath part (List.mem_of_getLast? hpart)

theorem ensures_shownArguments (args : List Value) :
    Ensures strict role (shownArguments args) fun _ ↦ True :=
  holds_shownArguments (Ensures.logic strict role) args

theorem ensures_callNamed (he : Evaluates strict evaluate) (name : String) {args : List Value}
    (hargs : ∀ v ∈ args, Admits strict .operand v) :
    Ensures strict .operand (callNamed evaluate name args) (Admits strict .operand) :=
  (Ensures.fetch _).bind fun f hf ↦ holds_callValue (Ensures.logic strict .operand) hf
    (he .operand f _ hf (admitsArguments_some hargs))

theorem ensures_runIndirectly (he : Evaluates strict evaluate) {args : List Value}
    (hargs : ∀ v ∈ args, Admits strict .operand v) :
    Ensures strict .operand (runIndirectly evaluate args) (Admits strict .operand) := by
  unfold runIndirectly
  split
  · exact .throw _
  · next rest =>
    exact ensures_called he _ (admitsArguments_some (List.forall_mem_cons.mp hargs).2)
  · exact .throw _

theorem ensures_evalCall (he : Evaluates strict evaluate) (name : String) {params : Value}
    (hparams : Admits strict .operand params) :
    Ensures strict .operand (evalCall evaluate name params) (Admits strict .operand) :=
  holds_evalCall (Ensures.logic strict .operand) (ensures_evalArguments he hparams)
    (fun _ hargs ↦ ensures_callNamed he name hargs) fun _ _ hargs ↦ ensures_runIndirectly he hargs

end VbaTrace.Semantics
