import VbaTrace.CommandLine.Shell
import VbaTrace.Engine.Lines
import VbaTrace.Engine.Scan
import VbaTrace.Engine.Session
import VbaTrace.Proofs.Evaluation
import VbaTrace.Proofs.Reading

/-!
Sessions. What a module declares, what a text reads as and what an evaluation gives are operands
wherever a variable comes to hold them. So every command of an engine keeps statements out of the
variables (`Offered.maintains`), and so does a session of any length (`Engine.Reached.admitted`).
-/

set_option autoImplicit false

namespace VbaTrace

/-- The state that was reached satisfies an invariant, and the value, if there is one, is as
stated. -/
def Leaves {σ α : Type} (I : σ → Prop) (Q : α → Prop) : EStateM.Result Fault σ α → Prop
  | .ok a s => I s ∧ Q a
  | .error _ s => I s

/-- The invariant is kept, also by a failure. -/
structure Maintains {σ α : Type} (I : σ → Prop) (x : EStateM Fault σ α) (Q : α → Prop) : Prop where
  leaves : ∀ s, I s → Leaves I Q (x s)

namespace Maintains

variable {σ α β : Type} {I : σ → Prop} {x : EStateM Fault σ α} {Q : α → Prop} {R : β → Prop}

theorem pure {a : α} (h : Q a) : Maintains I (Pure.pure a) Q :=
  ⟨fun _ hs ↦ ⟨hs, h⟩⟩

theorem throw (f : Fault) : Maintains I (MonadExcept.throw f) Q :=
  ⟨fun _ hs ↦ hs⟩

theorem get : Maintains I MonadState.get I :=
  ⟨fun _ hs ↦ ⟨hs, hs⟩⟩

theorem modify {f : σ → σ} (h : ∀ s, I s → I (f s)) :
    Maintains I (modify f : EStateM Fault σ Unit) fun _ ↦ True :=
  ⟨fun s hs ↦ ⟨h s hs, True.intro⟩⟩

theorem bind {f : α → EStateM Fault σ β} (hx : Maintains I x Q)
    (hf : ∀ a, Q a → Maintains I (f a) R) : Maintains I (x >>= f) R := by
  refine ⟨fun s hs ↦ ?_⟩
  have hleaves := hx.leaves s hs
  change Leaves I R (EStateM.bind x f s)
  unfold EStateM.bind
  cases hxs : x s with
  | ok a s' =>
    rw [hxs] at hleaves
    exact (hf a hleaves.2).leaves s' hleaves.1
  | error f s' =>
    rw [hxs] at hleaves
    exact hleaves

/-- What stands behind a failure is not reached. -/
theorem throw_bind (f : Fault) (g : α → EStateM Fault σ β) :
    Maintains I (MonadExcept.throw f >>= g) R :=
  (throw (Q := fun _ ↦ False) f).bind fun _ h ↦ h.elim

theorem tryCatch {handler : Fault → EStateM Fault σ α} (hx : Maintains I x Q)
    (hh : ∀ f, Maintains I (handler f) Q) : Maintains I (tryCatch x handler) Q := by
  refine ⟨fun s hs ↦ ?_⟩
  have hleaves := hx.leaves s hs
  change Leaves I Q (EStateM.tryCatch x handler s)
  unfold EStateM.tryCatch
  cases hxs : x s with
  | ok a s' =>
    rw [hxs] at hleaves
    exact hleaves
  | error f s' =>
    rw [hxs] at hleaves
    exact (hh f).leaves s' hleaves

theorem trivially (hx : Maintains I x Q) : Maintains I x fun _ ↦ True := by
  refine ⟨fun s hs ↦ ?_⟩
  have hleaves := hx.leaves s hs
  cases hxs : x s with
  | ok a s' =>
    rw [hxs] at hleaves
    exact ⟨hleaves.1, True.intro⟩
  | error f s' =>
    rw [hxs] at hleaves
    exact hleaves

/-- A loop that goes through a list. -/
theorem forIn {xs : List α} {body : α → PUnit → EStateM Fault σ (ForInStep PUnit)}
    (h : ∀ a ∈ xs, Maintains I (body a ⟨⟩) fun _ ↦ True) :
    Maintains I (ForIn.forIn xs PUnit.unit body) fun _ ↦ True := by
  induction xs with
  | nil => exact pure True.intro
  | cons a xs ih =>
    obtain ⟨ha, hxs⟩ := List.forall_mem_cons.mp h
    rw [List.forIn_cons]
    refine ha.bind fun step _ ↦ ?_
    cases step with
    | done => exact pure True.intro
    | yield => exact ih hxs

theorem forM {xs : List α} {f : α → EStateM Fault σ PUnit}
    (h : ∀ a ∈ xs, Maintains I (f a) fun _ ↦ True) : Maintains I (xs.forM f) fun _ ↦ True := by
  induction xs with
  | nil => exact pure True.intro
  | cons a xs ih =>
    obtain ⟨ha, hxs⟩ := List.forall_mem_cons.mp h
    exact ha.bind fun _ _ ↦ ih hxs

theorem mapM {xs : List α} {f : α → EStateM Fault σ β} (h : ∀ a ∈ xs, Maintains I (f a) R) :
    Maintains I (xs.mapM f) fun bs ↦ ∀ b ∈ bs, R b := by
  induction xs with
  | nil => exact pure fun _ hb ↦ nomatch hb
  | cons a xs ih =>
    obtain ⟨ha, hxs⟩ := List.forall_mem_cons.mp h
    rw [List.mapM_cons]
    refine ha.bind fun b hb ↦ (ih hxs).bind fun bs hbs ↦ pure ?_
    exact List.forall_mem_cons.mpr ⟨hb, hbs⟩

end Maintains

/-! Machines -/

/-- Statements are kept out of the variables of a machine. -/
abbrev Keeps {α : Type} (x : Eval α) (Q : α → Prop) : Prop :=
  Maintains (Machine.Admitted True) x Q

theorem Ensures.keeps {role : Role} {α : Type} {x : Eval α} {Q : α → Prop}
    (hx : Ensures True role x Q) : Keeps x Q := by
  refine ⟨fun m hm ↦ ?_⟩
  have h := hx m hm
  cases hxm : x m with
  | ok a m' =>
    rw [hxm] at h
    exact ⟨h.1.admitted hm, h.2⟩
  | error f m' =>
    rw [hxm] at h
    exact Changes.admitted h hm

theorem keeps_inNewFrame {α : Type} {x : Eval α} {Q : α → Prop} (hx : Keeps x Q) :
    Keeps (inNewFrame x) Q := by
  refine ⟨fun m hm ↦ ?_⟩
  have h := hx.leaves { m with frame := {}, globals := m.globals.install }
    ⟨fun _ _ hv ↦ (nomatch hv), hm.globals.install, hm.heap, hm.properties, hm.itemProperties⟩
  unfold inNewFrame
  cases hxm : x { m with frame := {}, globals := m.globals.install } with
  | ok a m' =>
    rw [hxm] at h
    exact ⟨⟨hm.locals, h.1.globals, h.1.heap, h.1.properties, h.1.itemProperties⟩, h.2⟩
  | error f m' =>
    rw [hxm] at h
    exact ⟨hm.locals, h.globals, h.heap, h.properties, h.itemProperties⟩

theorem keeps_run {v : Value} (hv : v.fits .statement = true) {args : Arguments}
    (hargs : AdmitsArguments True args) : Keeps (Semantics.run v args) (Admits True .operand) :=
  have hrun := Semantics.evaluates True Semantics.roundLimit Semantics.depthLimit
  (hrun .statement v args (fun _ ↦ hv) hargs).keeps

theorem keeps_displayed (v : Value) : Keeps (displayed v) fun _ ↦ True :=
  have hensures : Ensures True .operand (displayed v) fun _ ↦ True := .displayed v
  hensures.keeps

theorem keeps_report (what params description : Value) :
    Keeps (report what params description) fun _ ↦ True := by
  have hwritable (v : Value) : Ensures True .operand (ensureWritable v) fun _ ↦ True :=
    .ensureWritable v
  have hpush : Keeps (modify fun m : Machine ↦
      { m with actions := m.actions.push ⟨what, params, description⟩ }) fun _ ↦ True :=
    .modify fun _ hm ↦ ⟨hm.locals, hm.globals, hm.heap, hm.properties, hm.itemProperties⟩
  refine hpush.bind fun _ _ ↦ (hwritable what).keeps.bind fun _ _ ↦ ?_
  exact (hwritable params).keeps.bind fun _ _ ↦ (hwritable description).keeps

theorem keeps_actionGrid : Keeps Report.actionGrid fun _ ↦ True := by
  refine Maintains.get.bind fun m _ ↦ ?_
  have hcells (a : Action) : Keeps (Report.actionCells a) fun _ ↦ True :=
    (keeps_displayed a.what).bind fun _ _ ↦ (keeps_displayed a.params).bind fun _ _ ↦
      (keeps_displayed a.description).bind fun _ _ ↦ .pure True.intro
  exact (Maintains.mapM fun a _ ↦ hcells a).bind fun _ _ ↦ .pure True.intro

namespace Engine

theorem keeps_clearActions : Keeps clearActions fun _ ↦ True :=
  .modify fun _ hm ↦ ⟨hm.locals, hm.globals, hm.heap, hm.properties, hm.itemProperties⟩

theorem keeps_enter (name : String) : Keeps (enter name) fun _ ↦ True := by
  refine Maintains.get.bind fun m hm ↦ ?_
  split
  · next v hv =>
    have hfits : v.fits .statement = true :=
      Value.fits_mono rfl (hm.globals _ v hv True.intro)
    refine (keeps_report _ _ _).bind fun _ _ ↦ ?_
    exact (keeps_run hfits admitsArguments_none).bind fun _ _ ↦ .pure True.intro
  · exact .pure True.intro

theorem keeps_evaluateFound {ns : List Node}
    (hns : ∀ n ∈ ns, (Value.node n).fits .operand = true) :
    Keeps (evaluateFound ns) fun _ ↦ True := by
  induction ns with
  | nil => exact .pure True.intro
  | cons n ns ih =>
    obtain ⟨hn, hns⟩ := List.forall_mem_cons.mp hns
    have hrun := keeps_run (Value.fits_mono rfl hn) admitsArguments_none
    rw [evaluateFound]
    have houtcome : Keeps (Eval.handle (do return Except.ok (← Semantics.run (.node n) none))
        Eval.anyFault fun f ↦ return .error f) fun _ ↦ True :=
      .tryCatch (hrun.bind fun _ _ ↦ .pure True.intro) fun _ ↦ .pure True.intro
    refine houtcome.bind fun outcome _ ↦ ?_
    cases outcome with
    | error f => exact .pure True.intro
    | ok v => exact (ih hns).bind fun _ _ ↦ .pure True.intro

theorem keeps_scan (code : String) : Keeps (scan code) fun _ ↦ True := by
  have hfound : ∀ n ∈ (Grammar.findAll .exprConst code).1.filterMap foundExpression?,
      (Value.node n).fits .operand = true := by
    intro n hn
    obtain ⟨t, ht, hfirst⟩ := List.mem_filterMap.mp hn
    have hshape := Grammar.findFrom_hasShape rfl _ _ _ t ht
    unfold foundExpression? at hfirst
    split at hfirst
    · next n' _ hitems =>
      cases hfirst
      exact Value.fits_of_suits (hshape.items _ (hitems ▸ List.mem_cons_self))
    · exact nomatch hfirst
  exact (keeps_evaluateFound hfound).bind fun _ _ ↦ .pure True.intro

/-! Modules -/

/-- The machine of the engine keeps statements out of its variables. -/
def Admitted (e : Engine) : Prop :=
  e.machine.Admitted True

theorem admitted_start (printed : String) (modules : List Node) (entryPoints : List String)
    (dropped : Table (List UInt8)) (placeOf : String → String → Option String) :
    Admitted { machine := { dropped, placeOf }, modules, entryPoints, printed } :=
  .of_tables (.of_entries fun _ he ↦ (nomatch he)) (.of_entries fun _ he ↦ (nomatch he))
    (.of_entries fun _ he ↦ (nomatch he)) Heap.stocked_empty rfl rfl

theorem maintains_evaluation {α : Type} {x : Eval α} {Q : α → Prop} (hx : Keeps x Q) :
    Maintains Admitted (evaluation x) Q := by
  refine ⟨fun e he ↦ ?_⟩
  have h := hx.leaves e.machine he
  unfold evaluation
  cases hxe : x e.machine with
  | ok a m =>
    rw [hxe] at h
    exact h
  | error f m =>
    rw [hxe] at h
    exact h

theorem maintains_print (s : String) : Maintains Admitted (print s) fun _ ↦ True :=
  .modify fun _ he ↦ he

theorem maintains_ofExcept {α : Type} {Q : α → Prop} {r : Except Fault α}
    (h : ∀ a, r = .ok a → Q a) : Maintains Admitted (ofExcept r) Q := by
  cases r with
  | ok a => exact .pure (h a rfl)
  | error f => exact .throw f

theorem maintains_putGlobals {bs : List Binding} (hbs : ∀ b ∈ bs, b.value.fits .operand = true) :
    Maintains Admitted (putGlobals bs) fun _ ↦ True := by
  refine maintains_evaluation (.modify fun m hm ↦ ?_)
  refine ⟨hm.locals, ?_, hm.heap, hm.properties, hm.itemProperties⟩
  refine List.foldlRecOn bs _ hm.globals fun g hg b hb ↦ ?_
  exact hg.put _ fun _ ↦ hbs b hb

theorem maintains_addModule (onlyProcedures : Bool) {n : Node} (hn : n.declares = true) :
    Maintains Admitted (addModule onlyProcedures n) fun _ ↦ True := by
  refine Maintains.bind (Q := fun _ ↦ True) (.modify fun _ he ↦ he) fun _ _ ↦ ?_
  cases n with
  | codeModule _ _ subs functions externals globalVars =>
    simp only [Node.declares, List.all_cons, List.all_nil, Bool.and_true, Bool.and_eq_true,
      List.all_eq_true] at hn
    obtain ⟨hsubs, hfunctions, hexternals, hglobalVars⟩ := hn
    refine (maintains_putGlobals hsubs).bind fun _ _ ↦ ?_
    refine (maintains_putGlobals hfunctions).bind fun _ _ ↦ ?_
    refine (maintains_putGlobals hexternals).bind fun _ _ ↦ ?_
    split
    · exact maintains_putGlobals hglobalVars
    · exact .pure True.intro
  | _ => exact .pure True.intro

/-! Reading -/

theorem maintains_read {r : Grammar.Rule} (hr : r.isKnown = true) (all : Bool) (text : String) :
    Maintains Admitted (read r all text) (Grammar.HasShape r.shape) :=
  (maintains_print _).bind fun _ _ ↦
    maintains_ofExcept fun _ ht ↦ Grammar.readEchoing_hasShape hr ht

theorem maintains_printUnread (text : String) (place : Nat) :
    Maintains Admitted (printUnread text place) fun _ ↦ True :=
  (maintains_print _).bind fun _ _ ↦ (maintains_print _).bind fun _ _ ↦ maintains_print _

theorem maintains_readOrShow (heading : String) {r : Grammar.Rule} (hr : r.isKnown = true)
    (all : Bool) (text : String) : Maintains Admitted (readOrShow heading r all text)
      fun found ↦ ∀ t, found = some t → Grammar.HasShape r.shape t := by
  refine (maintains_print _).bind fun _ _ ↦ ?_
  split
  · next t ht =>
    exact .pure fun _ heq ↦ Option.some.inj heq ▸ Grammar.readEchoing_hasShape hr ht
  · refine (maintains_print _).bind fun _ _ ↦ (maintains_printUnread _ _).bind fun _ _ ↦ ?_
    exact .pure fun _ heq ↦ nomatch heq
  · exact .throw _

theorem declares_of_suits {n : Node} {role : Role} (h : (Value.node n).suits role = true) :
    n.declares = true :=
  (Bool.and_eq_true_iff.mp h).2

theorem maintains_loadModule (code : String) :
    Maintains Admitted (loadModule code) fun _ ↦ True := by
  refine (maintains_ofExcept (Q := fun _ ↦ True) fun _ _ ↦ True.intro).bind fun code _ ↦ ?_
  refine (maintains_readOrShow _ rfl _ _).bind fun found hfound ↦ ?_
  split
  · next n _ hitems =>
    cases found with
    | none => exact nomatch hitems
    | some t =>
      have hn := (hfound t rfl).items (.node n) (hitems ▸ List.mem_cons_self)
      exact maintains_addModule false (declares_of_suits hn)
  · exact .pure True.intro

/-- The values may stand as statements, with all that they hold. -/
abbrev SuitAll (vs : List Value) : Prop :=
  ∀ v ∈ vs, v.suits .statement = true

theorem suitAll_items {s : Grammar.Shape} {t : Tokens} (ht : Grammar.HasShape s t) :
    SuitAll t.items :=
  fun v hv ↦ Grammar.suits_statement (ht.items v hv)

theorem maintains_readBlock (lines : List String) :
    Maintains Admitted (readBlock lines) SuitAll := by
  have hlines := Maintains.mapM fun line (_ : line ∈ lines) ↦
    maintains_readOrShow "*** PARSING ERROR (3) ***\n" (r := .anyLine) rfl true line
  refine hlines.bind fun parts hparts ↦ .pure fun v hv ↦ ?_
  obtain ⟨found, hfound, hv⟩ := List.mem_flatMap.mp hv
  cases found with
  | none => exact nomatch hv
  | some t => exact suitAll_items (hparts _ hfound t rfl) v hv

/-- The body of the node that starts a block may be replaced. -/
theorem withBody_suits {statements : List Value} (hstatements : SuitAll statements) {v : Value}
    (hv : v.suits .statement = true) : (withBody statements v).suits .statement = true := by
  have hbody : fitAll statements .statement = true :=
    (fitAll_iff _ _).mpr fun w hw ↦ Value.fits_of_suits (hstatements w hw)
  unfold withBody
  split
  · simp_all [Value.suits, Node.fits, Value.fits, Node.declares]
  · simp_all [Value.suits, Node.fits, Value.fits, Node.declares]
  · simp_all [Value.suits, Node.fits, Value.fits, Node.declares]
  · exact hv

theorem startBlock_suits {statements items : List Value} (hstatements : SuitAll statements)
    (hitems : SuitAll items) : SuitAll (startBlock statements items) := by
  cases items with
  | nil => exact hitems
  | cons v vs =>
    obtain ⟨hv, hvs⟩ := List.forall_mem_cons.mp hitems
    exact List.forall_mem_cons.mpr ⟨withBody_suits hstatements hv, hvs⟩

theorem isKnown_lineRule (kind : LineKind) : kind.rule.isKnown = true := by
  cases kind <;> rfl

theorem maintains_readLines (lines : List String) :
    Maintains Admitted (readLines lines) SuitAll := by
  cases lines with
  | nil =>
    unfold readLines
    exact .pure fun _ hv ↦ nomatch hv
  | cons line lines =>
    unfold readLines
    dsimp only
    split
    · exact maintains_readLines lines
    · refine (maintains_ofExcept (Q := fun _ ↦ True) fun _ _ ↦ True.intro).bind fun kind _ ↦ ?_
      refine (maintains_readOrShow _ (isKnown_lineRule kind) _ _).bind fun found hfound ↦ ?_
      cases found with
      | none => exact maintains_readLines lines
      | some t =>
        have hitems := suitAll_items (hfound t rfl)
        dsimp only
        split
        · refine (maintains_readLines lines).bind fun vs hvs ↦ .pure ?_
          exact List.forall_mem_append.mpr ⟨hitems, hvs⟩
        · next blockEnd _ =>
          refine (maintains_readBlock _).bind fun statements hstatements ↦ ?_
          split
          · exact .throw _
          · refine (maintains_readLines _).bind fun vs hvs ↦ .pure ?_
            exact List.forall_mem_append.mpr ⟨startBlock_suits hstatements hitems, hvs⟩
termination_by lines.length
decreasing_by
  all_goals simp only [List.length_cons, List.length_tail, List.length_drop]
  all_goals omega

theorem maintains_loadModuleByLines (code : String) :
    Maintains Admitted (loadModuleByLines code) fun _ ↦ True := by
  refine (maintains_ofExcept (Q := fun _ ↦ True) fun _ _ ↦ True.intro).bind fun code _ ↦ ?_
  refine (maintains_readLines _).bind fun tokens htokens ↦ ?_
  have hbuilt : (Grammar.buildModule (.ofList tokens)).Suits .statement :=
    Grammar.buildModule_suits htokens
  split
  · next n _ heq =>
    rw [heq] at hbuilt
    refine (maintains_print _).bind fun _ _ ↦ ?_
    exact maintains_addModule true (declares_of_suits (hbuilt _ List.mem_cons_self))
  · exact .pure True.intro

/-! Documents -/

/-- A module that was read gives operands to the names that it declares. -/
def ReadingDeclares : MacroReading → Prop
  | .read n => n.declares = true
  | .empty | .unread => True

theorem maintains_readMacro (strip : Bool) (m : SourceMacro) :
    Maintains Admitted (readMacro strip m) ReadingDeclares := by
  refine (maintains_ofExcept (Q := fun _ ↦ True) fun _ _ ↦ True.intro).bind fun code _ ↦ ?_
  refine (maintains_print _).bind fun _ _ ↦ (maintains_print _).bind fun _ _ ↦ ?_
  refine (maintains_print _).bind fun _ _ ↦ (maintains_print _).bind fun _ _ ↦ ?_
  split
  · exact (maintains_print _).bind fun _ _ ↦ .pure True.intro
  · refine (maintains_print _).bind fun _ _ ↦ (maintains_print _).bind fun _ _ ↦ ?_
    refine (maintains_print _).bind fun _ _ ↦ (maintains_print _).bind fun _ _ ↦ ?_
    refine (maintains_print _).bind fun _ _ ↦ ?_
    refine (maintains_readOrShow _ rfl _ _).bind fun found hfound ↦ ?_
    cases found with
    | none => exact (maintains_print _).bind fun _ _ ↦ .pure True.intro
    | some t =>
      dsimp only
      split
      · next n _ hitems =>
        have hn := (hfound t rfl).items (.node n) (hitems ▸ List.mem_cons_self)
        exact .pure (declares_of_suits hn)
      · exact .throw _

theorem maintains_readMacros (strip : Bool) (ms : List SourceMacro) :
    Maintains Admitted (readMacros strip ms)
      fun found ↦ ∀ readings, found = some readings → ∀ r ∈ readings, ReadingDeclares r := by
  induction ms with
  | nil =>
    refine .pure fun _ heq ↦ ?_
    cases heq
    exact fun _ hr ↦ nomatch hr
  | cons m ms ih =>
    rw [readMacros]
    refine (maintains_readMacro strip m).bind fun reading hreading ↦ ?_
    have hrest : Maintains Admitted (do return (← readMacros strip ms).map (reading :: ·))
        fun found ↦ ∀ readings, found = some readings → ∀ r ∈ readings, ReadingDeclares r := by
      refine ih.bind fun found hfound ↦ .pure fun readings heq ↦ ?_
      obtain ⟨rest, hrest, rfl⟩ := Option.map_eq_some_iff.mp heq
      exact List.forall_mem_cons.mpr ⟨hreading, hfound rest hrest⟩
    cases reading with
    | unread => exact .pure fun _ heq ↦ nomatch heq
    | _ => exact hrest

theorem maintains_loadReading {r : MacroReading} (hr : ReadingDeclares r) :
    Maintains Admitted (loadReading r) fun _ ↦ True := by
  cases r with
  | read n => exact maintains_addModule false hr
  | _ => exact .pure True.intro

theorem maintains_trace : Maintains Admitted trace fun _ ↦ True := by
  refine Maintains.get.bind fun e _ ↦ maintains_evaluation (keeps_inNewFrame ?_)
  exact keeps_clearActions.bind fun _ _ ↦ .forM fun name _ ↦ keeps_enter name

theorem maintains_printActions : Maintains Admitted printActions fun _ ↦ True :=
  (maintains_print _).bind fun _ _ ↦
    (maintains_evaluation keeps_actionGrid).bind fun _ _ ↦ maintains_print _

theorem maintains_printFileName (name : String) :
    Maintains Admitted (printFileName name) fun _ ↦ True :=
  (maintains_print _).bind fun _ _ ↦ maintains_print _

theorem maintains_traceText (strip : Bool) (d : Document) :
    Maintains Admitted (traceText strip d) fun _ ↦ True := by
  have hproperties : Maintains Admitted (evaluation (modify fun m ↦
      { m with properties := some {}, dropDirectory := some d.dropDirectory })) fun _ ↦ True := by
    refine maintains_evaluation (.modify fun m hm ↦ ?_)
    refine ⟨hm.locals, hm.globals, hm.heap, fun t ht ↦ ?_, hm.itemProperties⟩
    cases ht
    exact .of_entries fun _ he ↦ nomatch he
  unfold traceText
  dsimp only
  split
  · exact .throw_bind _ _
  · refine (maintains_print _).bind fun _ _ ↦ hproperties.bind fun _ _ ↦ ?_
    refine (maintains_readMacros strip _).bind fun found hfound ↦ ?_
    cases found with
    | none => exact .pure True.intro
    | some readings =>
      have hload := Maintains.forM fun r hr ↦ maintains_loadReading (hfound readings rfl r hr)
      refine hload.bind fun _ _ ↦ (maintains_print _).bind fun _ _ ↦ ?_
      refine (maintains_print _).bind fun _ _ ↦ maintains_trace.bind fun _ _ ↦ ?_
      refine maintains_printActions.bind fun _ _ ↦ (maintains_print _).bind fun _ _ ↦ ?_
      exact Maintains.get.bind fun _ _ ↦ .pure True.intro

theorem maintains_traceDocument (strip : Bool) (entryPoints : List String) (d : Document) :
    Maintains Admitted (traceDocument strip entryPoints d) fun _ ↦ True := by
  have hrenew : Maintains Admitted renew fun _ ↦ True := .modify fun e _ ↦ admitted_start _ _ _ _ _
  refine hrenew.bind fun _ _ ↦ (maintains_printFileName d.name).bind fun _ _ ↦ ?_
  refine Maintains.bind (Q := fun _ ↦ True) (.modify fun _ he ↦ he) fun _ _ ↦ ?_
  refine (maintains_traceText strip d).tryCatch fun f ↦ ?_
  split
  · exact .pure True.intro
  · exact .throw f

/-! Steps of a session -/

theorem maintains_evaluateText (text : String) :
    Maintains Admitted (evaluateText text) fun _ ↦ True := by
  have hinstall : Maintains Admitted (evaluation (modify fun m ↦
      { m with globals := m.globals.install, actions := #[] })) fun _ ↦ True :=
    maintains_evaluation (.modify fun m hm ↦
      ⟨hm.locals, hm.globals.install, hm.heap, hm.properties, hm.itemProperties⟩)
  refine hinstall.bind fun _ _ ↦ (maintains_read rfl _ _).bind fun t ht ↦ ?_
  have hfits : (t.items.headD .null).fits .statement = true := by
    cases hitems : t.items with
    | nil => rfl
    | cons v vs => exact Value.fits_of_suits (suitAll_items ht v (hitems ▸ List.mem_cons_self))
  exact (maintains_evaluation (keeps_inNewFrame (keeps_run hfits admitsArguments_none))).trivially

theorem maintains_execute (code : String) : Maintains Admitted (execute code) fun _ ↦ True := by
  refine (maintains_read rfl _ _).bind fun t ht ↦ ?_
  refine Maintains.bind (.forIn fun v hv ↦ ?_) fun _ _ ↦ .pure True.intro
  have hfits := Value.fits_of_suits (suitAll_items ht v hv)
  exact (maintains_evaluation (keeps_run hfits admitsArguments_none)).bind fun _ _ ↦
    .pure True.intro

theorem maintains_readFirst {r : Grammar.Rule} (hr : r.isKnown = true) (all : Bool)
    (text : String) :
    Maintains Admitted (readFirst r all text) fun v ↦ v.fits .statement = true := by
  refine (maintains_read hr all text).bind fun t ht ↦ ?_
  split
  · next v _ hitems =>
    exact .pure (Value.fits_of_suits (suitAll_items ht v (hitems ▸ List.mem_cons_self)))
  · exact .throw _

theorem keeps_share {v : Value} (hv : v.fits .operand = true) :
    Keeps (share v) (Admits True .operand) :=
  have hensures : Ensures True .statement (share v) (Admits True .operand) :=
    .share (fun _ ↦ hv) fun _ ↦ rfl
  hensures.keeps

theorem maintains_setGlobal (name : String) {v : Value} (hv : v.fits .operand = true) :
    Maintains Admitted (setGlobal name v) fun _ ↦ True := by
  refine maintains_evaluation ((keeps_share hv).bind fun w hw ↦ .modify fun m hm ↦ ?_)
  exact ⟨hm.locals, hm.globals.put name hw, hm.heap, hm.properties, hm.itemProperties⟩

theorem maintains_setLocal (name : String) {v : Value} (hv : v.fits .operand = true) :
    Maintains Admitted (setLocal name v) fun _ ↦ True := by
  refine maintains_evaluation ((keeps_share hv).bind fun w hw ↦ .modify fun m hm ↦ ?_)
  exact ⟨hm.locals.put name hw, hm.globals, hm.heap, hm.properties, hm.itemProperties⟩

theorem maintains_setProperties {properties : Option (Table Value)}
    (h : ∀ t, properties = some t → ∀ e ∈ t.entries, e.2.fits .operand = true) :
    Maintains Admitted (setProperties properties) fun _ ↦ True := by
  have hset (shared : Option (Table Value)) (hshared : ∀ t, shared = some t → t.Admitted True) :
      Keeps (modify fun m ↦ { m with properties := shared, itemProperties := shared })
        fun _ ↦ True :=
    .modify fun m hm ↦ ⟨hm.locals, hm.globals, hm.heap, hshared, hshared⟩
  refine maintains_evaluation ?_
  cases properties with
  | none => exact hset none fun _ heq ↦ nomatch heq
  | some t =>
    have hshare (e : String × Value) (he : e ∈ t.entries) :
        Keeps (do return (e.1, ← share e.2)) fun e' ↦ e'.2.fits .operand = true :=
      (keeps_share (h t rfl e he)).bind fun _ hw ↦ .pure (hw True.intro)
    refine (Maintains.mapM hshare).bind fun entries hentries ↦ ?_
    refine hset (some ⟨entries⟩) ?_
    rintro _ ⟨⟩
    exact .of_entries hentries

theorem maintains_callLibrary (key : String) {args : Arguments}
    (hargs : AdmitsArguments True args) :
    Maintains Admitted (callLibrary key args) fun _ ↦ True := by
  unfold callLibrary
  split
  · exact (maintains_evaluation (keeps_run rfl hargs)).trivially
  · exact .pure True.intro
  · exact .throw _

theorem maintains_callNamed (name : Value) {args : Arguments} (hargs : AdmitsArguments True args) :
    Maintains Admitted (callNamed name args) fun _ ↦ True := by
  have hfetch : Ensures True .operand (fetch name) (Admits True .operand) := .fetch name
  refine maintains_evaluation (hfetch.keeps.bind fun v hv ↦ ?_)
  exact (keeps_run (Value.fits_mono rfl (hv True.intro)) hargs).trivially

end Engine

/-! Command lines -/

namespace CommandLine

open Engine

theorem maintains_invoke (program : String) (switches : List Switch) (arguments : List String) :
    Maintains Admitted (invoke program switches arguments) fun _ ↦ True := by
  unfold invoke
  split
  · exact .pure True.intro
  · exact .throw _
  · exact (maintains_print _).bind fun _ _ ↦ .throw _

theorem maintains_checkLevel (i : Invocation) :
    Maintains Admitted (checkLevel i) fun _ ↦ True := by
  unfold checkLevel
  split
  · exact .pure True.intro
  · exact .throw _

namespace Tracer

theorem maintains_scanDocument (d : Document) :
    Maintains Admitted (scanDocument d) fun _ ↦ True := by
  refine (maintains_printFileName d.name).bind fun _ _ ↦ ?_
  split
  · exact (maintains_print _).bind fun _ _ ↦ maintains_print _
  · exact maintains_print _

theorem maintains_processFile (i : Invocation) (name text : String) :
    Maintains Admitted (processFile i name text) fun _ ↦ True := by
  unfold processFile
  split
  · exact .throw _
  · split
    · exact maintains_scanDocument _
    · exact (maintains_traceDocument _ _ _).bind fun _ _ ↦ .pure True.intro

theorem maintains_processMissing (i : Invocation) (name : String) :
    Maintains Admitted (processMissing i name) fun _ ↦ True := by
  refine (maintains_printFileName name).bind fun _ _ ↦ ?_
  split
  · exact maintains_print _
  · exact .pure True.intro

theorem maintains_processArgument (i : Invocation) (files : Files) (argument : String) :
    Maintains Admitted (processArgument i files argument) fun _ ↦ True := by
  unfold processArgument
  split
  · exact maintains_processMissing i argument
  · refine Maintains.bind (.forIn fun name _ ↦ ?_) fun _ _ ↦ .pure True.intro
    exact (maintains_processFile i name _).bind fun _ _ ↦ .pure True.intro

theorem maintains_run (arguments : List String) (files : Files) :
    Maintains Admitted (run arguments files) fun _ ↦ True := by
  unfold run
  refine (maintains_print _).bind fun _ _ ↦ (maintains_invoke _ _ _).bind fun i _ ↦ ?_
  dsimp only
  split
  · refine (maintains_print _).bind fun _ _ ↦ (maintains_print _).bind fun _ _ ↦ ?_
    exact .throw_bind _ _
  · refine (maintains_checkLevel i).bind fun _ _ ↦ ?_
    refine Maintains.bind (.forIn fun argument _ ↦ ?_) fun _ _ ↦ .pure True.intro
    exact (maintains_processArgument i files argument).bind fun _ _ ↦ .pure True.intro

end Tracer

namespace Shell

theorem maintains_loadFile (files : Files) (name : String) :
    Maintains Admitted (loadFile files name) fun _ ↦ True := by
  refine (maintains_print _).bind fun _ _ ↦ ?_
  split
  · exact maintains_loadModule _
  · exact .throw _

theorem maintains_showValue (expression : String) :
    Maintains Admitted (showValue expression) fun _ ↦ True := by
  unfold showValue
  refine (maintains_print _).bind fun _ _ ↦ (maintains_evaluateText _).bind fun v _ ↦ ?_
  refine (maintains_evaluation (keeps_displayed v)).bind fun _ _ ↦ ?_
  exact (maintains_print _).bind fun _ _ ↦ maintains_printActions

theorem maintains_traceAll (command : String) :
    Maintains Admitted (traceAll command) fun _ ↦ True := by
  unfold traceAll
  split
  · refine (maintains_print _).bind fun _ _ ↦ maintains_trace.bind fun _ _ ↦ ?_
    exact maintains_printActions
  · exact .throw _

theorem maintains_forgiving {c : Command Unit} (hc : Maintains Admitted c fun _ ↦ True) :
    Maintains Admitted (forgiving c) fun _ ↦ True := by
  refine hc.tryCatch fun f ↦ ?_
  split
  · exact .pure True.intro
  · exact .throw f

theorem maintains_perform (command : String) :
    Maintains Admitted (perform command) fun _ ↦ True := by
  unfold perform
  split
  · exact maintains_traceAll command
  · split
    · exact maintains_showValue _
    · exact .pure True.intro

theorem maintains_converse (lines : List String) :
    Maintains Admitted (converse lines) fun _ ↦ True := by
  cases lines with
  | nil =>
    unfold converse
    exact .pure True.intro
  | cons line lines =>
    unfold converse
    refine (maintains_print _).bind fun _ _ ↦ ?_
    split
    · exact .pure True.intro
    · split
      · refine (maintains_print _).bind fun _ _ ↦ ?_
        refine (maintains_forgiving (maintains_loadModule _)).bind fun _ _ ↦ ?_
        exact maintains_converse _
      · exact (maintains_forgiving (maintains_perform line)).bind fun _ _ ↦
          maintains_converse lines
termination_by lines.length
decreasing_by
  all_goals simp only [List.length_cons, List.length_drop]
  all_goals omega

theorem maintains_run (arguments : List String) (files : Files) (lines : List String) :
    Maintains Admitted (run arguments files lines) fun _ ↦ True := by
  unfold run
  refine (maintains_print _).bind fun _ _ ↦ (maintains_invoke _ _ _).bind fun i _ ↦ ?_
  refine (maintains_checkLevel i).bind fun _ _ ↦ ?_
  extract_lets talk afterFile
  have hafter (u : Unit) : Maintains Admitted (afterFile u) fun _ ↦ True := by
    unfold afterFile talk
    split
    · exact (maintains_showValue _).bind fun _ _ ↦ maintains_converse lines
    · exact maintains_converse lines
  split
  · exact (maintains_loadFile files _).bind fun u _ ↦ hafter u
  · exact hafter ()

end Shell

end CommandLine

namespace Engine

/-- A command of a session, with operands where values are given. -/
inductive Offered : {α : Type} → Command α → Prop
  | traceFiles (arguments : List String) (files : CommandLine.Files) :
    Offered (CommandLine.Tracer.run arguments files)
  | converse (arguments : List String) (files : CommandLine.Files) (lines : List String) :
    Offered (CommandLine.Shell.run arguments files lines)
  | loadModule (code : String) : Offered (loadModule code)
  | loadModuleByLines (code : String) : Offered (loadModuleByLines code)
  | traceDocument (strip : Bool) (entryPoints : List String) (d : Document) :
    Offered (traceDocument strip entryPoints d)
  | trace : Offered trace
  | evaluateText (text : String) : Offered (evaluateText text)
  | execute (code : String) : Offered (execute code)
  | scan (code : String) : Offered (evaluation (scan code))
  | callRead {r : Grammar.Rule} (hr : r.isKnown = true) (all : Bool) (text : String)
    {args : Arguments} (hargs : AdmitsArguments True args) :
    Offered (readFirst r all text >>= fun v ↦ call v args)
  | callNamed (name : Value) {args : Arguments} (hargs : AdmitsArguments True args) :
    Offered (callNamed name args)
  | callLibrary (key : String) {args : Arguments} (hargs : AdmitsArguments True args) :
    Offered (callLibrary key args)
  | operand {v : Value} (hv : v.fits .operand = true) : Offered (operand v)
  | store (name : Value) {v : Value} (hv : v.fits .operand = true) (type : Option Value) :
    Offered (evaluation (store name v type))
  | setGlobal (name : String) {v : Value} (hv : v.fits .operand = true) : Offered (setGlobal name v)
  | setLocal (name : String) {v : Value} (hv : v.fits .operand = true) : Offered (setLocal name v)
  | setProperties {properties : Option (Table Value)}
    (h : ∀ t, properties = some t → ∀ e ∈ t.entries, e.2.fits .operand = true) :
    Offered (setProperties properties)
  | setLoopBound (n : Int) : Offered (setLoopBound n)
  | renewFrame : Offered renewFrame

theorem Offered.maintains {α : Type} {x : Command α} (hx : Offered x) :
    Maintains Admitted x fun _ ↦ True := by
  cases hx with
  | traceFiles arguments files => exact CommandLine.Tracer.maintains_run arguments files
  | converse arguments files lines => exact CommandLine.Shell.maintains_run arguments files lines
  | loadModule code => exact maintains_loadModule code
  | loadModuleByLines code => exact maintains_loadModuleByLines code
  | traceDocument strip entryPoints d => exact maintains_traceDocument strip entryPoints d
  | trace => exact maintains_trace
  | evaluateText text => exact maintains_evaluateText text
  | execute code => exact maintains_execute code
  | scan code => exact maintains_evaluation (keeps_scan code)
  | callRead hr all text hargs =>
    refine (maintains_readFirst hr all text).bind fun v hv ↦ ?_
    exact (maintains_evaluation (keeps_run hv hargs)).trivially
  | callNamed name hargs => exact maintains_callNamed name hargs
  | callLibrary key hargs => exact maintains_callLibrary key hargs
  | operand hv =>
    have hrun := Semantics.evaluates True Semantics.roundLimit Semantics.depthLimit
    exact (maintains_evaluation (Semantics.ensures_evalOperand hrun fun _ ↦ hv).keeps).trivially
  | store name hv type =>
    have hstore : Ensures True .statement (VbaTrace.store name _ type) fun _ ↦ True :=
      .store name (fun _ ↦ hv) type fun _ ↦ rfl
    exact maintains_evaluation hstore.keeps
  | setGlobal name hv => exact maintains_setGlobal name hv
  | setLocal name hv => exact maintains_setLocal name hv
  | setProperties h => exact maintains_setProperties h
  | setLoopBound n =>
    exact maintains_evaluation (.modify fun m hm ↦
      ⟨hm.locals, hm.globals, hm.heap, hm.properties, hm.itemProperties⟩)
  | renewFrame =>
    exact maintains_evaluation (.modify fun m hm ↦
      ⟨fun _ _ hv ↦ (nomatch hv), hm.globals.install, hm.heap, hm.properties, hm.itemProperties⟩)

/-- The engine can be reached in a session. -/
inductive Reached : Engine → Prop
  | start : Reached {}
  | done {e e' : Engine} {α : Type} {x : Command α} {a : α} (hx : Offered x) (h : x e = .ok a e') :
    Reached e → Reached e'
  | failed {e e' : Engine} {α : Type} {x : Command α} {f : Fault} (hx : Offered x)
    (h : x e = .error f e') : Reached e → Reached e'

/-- No variable holds a statement in any session. -/
theorem Reached.admitted {e : Engine} (he : e.Reached) : e.machine.Admitted True := by
  induction he with
  | start => exact admitted_start _ _ _ _ _
  | done hx h _ ih =>
    have hleaves := hx.maintains.leaves _ ih
    rw [h] at hleaves
    exact hleaves.1
  | failed hx h _ ih =>
    have hleaves := hx.maintains.leaves _ ih
    rw [h] at hleaves
    exact hleaves

end Engine

end VbaTrace
