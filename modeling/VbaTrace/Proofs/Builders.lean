import VbaTrace.Grammar.Run
import VbaTrace.Proofs.Shapes

/-!
What builders make of tokens of a shape. A builder accepts a shape when it gets operands wherever
the node that it builds evaluates them. It then builds nodes that keep operands and statements apart
(`Builder.apply_suits`).
-/

set_option autoImplicit false

namespace VbaTrace

namespace Grammar

namespace Builder

/-- The labels under which a builder needs operands. -/
def operandLabels : Builder → List String
  | environ => ["arg"]
  | call | callStatement => ["params"]
  | element => ["array", "index"]
  | new => ["expression"]
  | assign => ["index", "expression"]
  | forLoop => ["start_value", "end_value", "step_value"]
  | forEach | whileLoop => ["clause"]
  | doLoop => ["guard"]
  | selectClause => ["select_val"]
  | caseClause => ["case_val"]
  | openFile => ["file_name"]
  | print => ["file_id", "value"]
  | _ => []

/-- The items have to be operands. -/
def needsOperands : Builder → Bool
  | chr | asc | strReverse | member | operation _ | comparison | condition | dim | globalVar => true
  | _ => false

/-- The role of what is built of items in a role. -/
def role : Builder → Role → Role
  | firstItem, items => items
  | oneSpace, _ | wholeNumbers, _ | booleanLiteral, _ | decimal, _ | octal, _ | hexadecimal, _
  | fraction, _ | filePointer, _ | chr, _ | asc, _ | strReverse, _ | environ, _ | simpleName, _
  | me, _ | member, _ | call, _ | element, _ | operation _, _ | comparison, _ | condition, _
  | new, _ => .operand
  | _, _ => .statement

def accepts (b : Builder) (s : Shape) : Bool :=
  b.operandLabels.all (fun name ↦ !s.statements.contains name) &&
    (!b.needsOperands || s.items == .operand)

end Builder

/-- All values that were built can stand in a role. -/
def Built.Suits (role : Role) : Built → Prop
  | .values vs => ∀ v ∈ vs, v.suits role = true
  | .refused | .faulty _ => True

section

variable {s : Shape} {t : Tokens} {role : Role}

theorem Built.suits_one {v : Value} (h : v.suits role = true) : Built.Suits role (.one v) :=
  List.forall_mem_singleton.mpr h

theorem Built.suits_node {n : Node} (hfits : n.fits role = true) (hdeclares : n.declares = true) :
    Built.Suits role (.node n) :=
  Built.suits_one (Bool.and_eq_true_iff.mpr ⟨hfits, hdeclares⟩)

theorem Built.suits_ite {p : Prop} [Decidable p] {x y : Built} (hx : x.Suits role)
    (hy : y.Suits role) : (if p then x else y).Suits role := by
  split
  · exact hx
  · exact hy

theorem buildOne_suits {f : Value → Node} (hdeclares : ∀ v, (f v).declares = true)
    (h : ∀ v ∈ t.items, (f v).fits role = true) : (buildOne t f).Suits role := by
  unfold buildOne
  split
  · exact True.intro
  · next v _ heq => exact Built.suits_node (h v (heq ▸ List.mem_cons_self)) (hdeclares v)

theorem readWholeNumbers_suits (vs : List Value) : (readWholeNumbers vs).Suits role := by
  induction vs with
  | nil => exact fun _ hv ↦ nomatch hv
  | cons v vs ih =>
    rw [readWholeNumbers]
    split
    · next ws _ hws =>
      rw [hws] at ih
      exact List.forall_mem_cons.mpr ⟨rfl, ih⟩
    · exact True.intro

theorem buildNumber_suits (base : Nat) : (buildNumber base t).Suits role := by
  unfold buildNumber
  split
  · exact True.intro
  · split
    · exact Built.suits_one rfl
    · exact True.intro

theorem buildFraction_suits : (buildFraction t).Suits role := by
  unfold buildFraction
  split
  · split
    · exact Built.suits_one rfl
    · exact True.intro
  · exact True.intro

theorem mem_of_mem_operandsOf {vs : List Value} {v : Value} (hv : v ∈ operandsOf vs) : v ∈ vs := by
  induction vs using operandsOf.induct with
  | case1 => exact hv
  | case2 => exact hv
  | case3 w x ws ih =>
    rw [operandsOf, List.mem_cons] at hv
    rcases hv with rfl | hv
    · exact List.mem_cons_self
    · exact List.mem_cons_of_mem _ (List.mem_cons_of_mem _ (ih hv))

theorem conditionOf_fits {vs : List Value} (hvs : ∀ v ∈ vs, v.fits .operand = true) :
    (conditionOf vs).fits .operand = true := by
  induction vs using conditionOf.induct with
  | case1 => rfl
  | case2 v => simp [conditionOf, Node.fits, Value.fits, hvs v]
  | case3 v op vs ih =>
    have hrest := ih fun w hw ↦ hvs w (List.mem_cons_of_mem _ (List.mem_cons_of_mem _ hw))
    simp [conditionOf, Node.fits, Value.fits, hvs v, hrest]

theorem conditionOf_declares (vs : List Value) : (conditionOf vs).declares = true := by
  unfold conditionOf
  split <;> rfl

theorem buildCondition_suits {v : Value} (hv : v.suits .operand = true) :
    (buildCondition v).Suits .operand := by
  unfold buildCondition
  split
  · next u =>
    have hitems : ∀ w ∈ u.items, w.fits .operand = true :=
      fun w hw ↦ Value.fits_of_suits (((suits_tokens_iff u).mp hv).1 w hw)
    split
    · exact True.intro
    · exact True.intro
    · next op w heq =>
      refine Built.suits_node ?_ rfl
      simp [Node.fits, Value.fits, hitems w (heq ▸ by simp)]
    · exact Built.suits_node (conditionOf_fits hitems) (conditionOf_declares _)
  · refine Built.suits_node ?_ rfl
    simp [Node.fits, Value.fits, Value.fits_of_suits hv]

theorem buildComparison_suits (hitems : ∀ v ∈ t.items, v.suits .operand = true) :
    (buildComparison t).Suits .operand := by
  unfold buildComparison
  split
  · exact True.intro
  · next lhs op rhs heq =>
    have hlhs := Value.fits_of_suits (hitems lhs (heq ▸ by simp))
    have hrhs := Value.fits_of_suits (hitems rhs (heq ▸ by simp))
    refine Built.suits_node ?_ rfl
    simp [Node.fits, hlhs, hrhs]
  · next lhs _ _ heq =>
    have hlhs := Value.fits_of_suits (hitems lhs (heq ▸ by simp))
    refine Built.suits_node ?_ rfl
    simp [Node.fits, Value.fits, hlhs]

theorem buildMember_suits (hitems : ∀ v ∈ t.items, v.suits .operand = true) :
    (buildMember t).Suits .operand := by
  unfold buildMember
  split
  · exact True.intro
  · next outer _ hfirst =>
    have houter := hasShape_tokensOf (hitems outer (hfirst ▸ List.mem_cons_self))
    split
    · exact True.intro
    · next v _ hsecond =>
      have hinner := hasShape_tokensOf (houter.items v (hsecond ▸ List.mem_cons_self))
      have hobject := Value.fits_of_suits (hinner.get "lhs")
      have hlast := Value.fits_of_suits (hinner.get "rhs1")
      have hpath : fitAll (tokensOf v).items.tail .operand = true :=
        (fitAll_iff _ _).mpr fun w hw ↦
          Value.fits_of_suits (hinner.items w (List.mem_of_mem_tail hw))
      refine Built.suits_node ?_ rfl
      simp only [Node.fits, Bool.and_eq_true]
      exact ⟨⟨hobject, hpath⟩, hlast⟩

theorem fits_initialOf {v : Value} (hv : v.suits .operand = true) :
    (initialOf v).fits .operand = true := by
  unfold initialOf
  split
  · next x eq _ _ heq =>
    split
    · have hx : x ∈ (tokensOf v).items := List.mem_reverse.mp (heq ▸ List.mem_cons_self)
      exact Value.fits_of_suits (suits_items_tokensOf hv x hx)
    · rfl
  · rfl

theorem buildDim_suits (hitems : ∀ v ∈ t.items, v.suits .operand = true) :
    (buildDim t).Suits .statement := by
  unfold buildDim
  split
  · exact True.intro
  · next last hlast =>
    refine Built.suits_node ?_ rfl
    simp only [Node.fits, Bool.and_eq_true]
    exact ⟨rfl, fits_initialOf (hitems last (List.mem_of_getLast? hlast))⟩

theorem buildGlobalVar_suits (hitems : ∀ v ∈ t.items, v.suits .operand = true) :
    (buildGlobalVar t).Suits .statement := by
  unfold buildGlobalVar
  split
  · exact True.intro
  · next v _ hfirst =>
    have hv := suits_items_tokensOf (hitems v (hfirst ▸ List.mem_cons_self))
    split
    · exact True.intro
    · exact Built.suits_node rfl rfl
    · exact Built.suits_node rfl rfl
    · next name _ value _ heq =>
      exact Built.suits_node rfl (Value.fits_of_suits (hv value (heq ▸ by simp)))

theorem buildForLoop_suits (ht : HasShape s t) (hstart : (t.get "start_value").fits .operand = true)
    (hstop : (t.get "end_value").fits .operand = true) (hstep : "step_value" ∉ s.statements) :
    (buildForLoop t).Suits .statement := by
  have hbody := Value.fits_of_suits (suits_statement (ht.get "statements"))
  unfold buildForLoop
  dsimp only
  split
  · refine Built.suits_node ?_ rfl
    simp only [Node.fits, Bool.and_eq_true]
    exact ⟨rfl, ⟨⟨hstart, hstop⟩, rfl⟩, hbody⟩
  · next step hfind =>
    have hstep' : step.suits .operand = true := by
      have h := ht.find? hfind
      rwa [Shape.roleOf, if_neg (by simpa using hstep)] at h
    split
    · exact True.intro
    · next v _ heq =>
      have hv := suits_items_tokensOf hstep' v (heq ▸ List.mem_cons_self)
      refine Built.suits_node ?_ rfl
      simp only [Node.fits, Bool.and_eq_true]
      exact ⟨rfl, ⟨⟨hstart, hstop⟩, Value.fits_of_suits hv⟩, hbody⟩

theorem buildSelectClause_suits (h : (t.get "select_val").suits .operand = true) :
    (buildSelectClause t).Suits .statement := by
  unfold buildSelectClause
  split
  · split
    · exact True.intro
    · exact Built.suits_node rfl rfl
  · next u heq =>
    rw [heq] at h
    split
    · exact True.intro
    · next v _ hfirst =>
      have hv := ((suits_tokens_iff u).mp h).1 v (hfirst ▸ List.mem_cons_self)
      refine Built.suits_node ?_ rfl
      simp only [Node.fits, Bool.and_eq_true]
      exact ⟨rfl, Value.fits_of_suits hv⟩
  · exact True.intro

theorem buildCaseClause_suits (h : (t.get "case_val").fits .operand = true) :
    (buildCaseClause t).Suits .statement := by
  unfold buildCaseClause
  dsimp only
  split
  · exact True.intro
  · refine Built.suits_ite True.intro (Built.suits_node ?_ rfl)
    simp only [Node.fits, Bool.and_eq_true]
    exact ⟨rfl, h⟩

theorem branchesOf_fit {vs : List Value} (hvs : ∀ v ∈ vs, v.suits .statement = true) :
    branchesFit (branchesOf vs) = true := by
  induction vs with
  | nil => rfl
  | cons v vs ih =>
    obtain ⟨hv, hvs⟩ := List.forall_mem_cons.mp hvs
    have hitems := fun w hw ↦ Value.fits_of_suits (suits_items_tokensOf hv w hw)
    rw [branchesOf]
    split
    · next guard body heq =>
      simp [branchesFit, Branch.fits, hitems guard (heq ▸ by simp), hitems body (heq ▸ by simp),
        ih hvs]
    · next body heq =>
      simp [branchesFit, Branch.fits, Value.fits, hitems body (heq ▸ by simp), ih hvs]
    · exact ih hvs

theorem trailingOf_fits (ht : HasShape s t) : (trailingOf t).fits .statement = true := by
  have hget := Value.fits_of_suits (suits_statement (ht.get "bogus_if"))
  unfold trailingOf
  split
  · next u heq =>
    rw [heq] at hget
    split
    · rfl
    · exact hget
  · rfl

/-! Modules -/

theorem Binding.fits_put {name : String} {v : Value} (hv : v.fits .operand = true)
    {bs : List Binding} (hbs : ∀ b ∈ bs, b.value.fits .operand = true) :
    ∀ b ∈ Binding.put name v bs, b.value.fits .operand = true := by
  induction bs with
  | nil => exact List.forall_mem_singleton.mpr hv
  | cons b bs ih =>
    obtain ⟨hb, hbs⟩ := List.forall_mem_cons.mp hbs
    rw [Binding.put]
    split
    · exact List.forall_mem_cons.mpr ⟨hv, hbs⟩
    · exact List.forall_mem_cons.mpr ⟨hb, ih hbs⟩

/-- The global names that the parts of a module declare get operands. -/
structure ModuleParts.Declares (p : ModuleParts) : Prop where
  subs : ∀ b ∈ p.subs, b.value.fits .operand = true
  functions : ∀ b ∈ p.functions, b.value.fits .operand = true
  externals : ∀ b ∈ p.externals, b.value.fits .operand = true
  globalVars : ∀ b ∈ p.globalVars, b.value.fits .operand = true

theorem ModuleParts.Declares.add {p : ModuleParts} (hp : p.Declares) {v : Value}
    (hv : v.suits .statement = true) : (p.add v).Declares := by
  cases v with
  | node n =>
    rw [Value.suits, Bool.and_eq_true] at hv
    cases n with
    | sub name params body trailing =>
      have hsub : (Value.node (.sub name params body trailing)).fits .operand = true := hv.1
      exact ⟨Binding.fits_put hsub hp.subs, hp.functions, hp.externals, hp.globalVars⟩
    | function name params body returns trailing =>
      have hfunction : (Value.node (.function name params body returns trailing)).fits .operand =
        true := hv.1
      exact ⟨hp.subs, Binding.fits_put hfunction hp.functions, hp.externals, hp.globalVars⟩
    | external =>
      exact ⟨hp.subs, hp.functions, Binding.fits_put rfl hp.externals, hp.globalVars⟩
    | globalVar =>
      exact ⟨hp.subs, hp.functions, hp.externals, Binding.fits_put hv.2 hp.globalVars⟩
    | _ => exact ⟨hp.subs, hp.functions, hp.externals, hp.globalVars⟩
  | _ => exact hp

theorem ModuleParts.Declares.foldl {vs : List Value} (hvs : ∀ v ∈ vs, v.suits .statement = true)
    {p : ModuleParts} (hp : p.Declares) : (vs.foldl ModuleParts.add p).Declares := by
  induction vs generalizing p with
  | nil => exact hp
  | cons v vs ih =>
    obtain ⟨hv, hvs⟩ := List.forall_mem_cons.mp hvs
    exact ih hvs (hp.add hv)

theorem buildModule_suits (hitems : ∀ v ∈ t.items, v.suits .statement = true) :
    (buildModule t).Suits .statement := by
  have hstart : ModuleParts.Declares {} :=
    ⟨fun _ h ↦ (nomatch h), fun _ h ↦ (nomatch h), fun _ h ↦ (nomatch h), fun _ h ↦ (nomatch h)⟩
  obtain ⟨hsubs, hfunctions, hexternals, hglobalVars⟩ := hstart.foldl hitems
  refine Built.suits_node rfl ?_
  simp only [Node.declares, List.all_cons, List.all_nil, Bool.and_true, Bool.and_eq_true,
    List.all_eq_true]
  exact ⟨hsubs, hfunctions, hexternals, hglobalVars⟩

theorem Built.suits_ofOption {v : Option Value} (h : ∀ w, v = some w → w.suits role = true) :
    (Built.ofOption v).Suits role := by
  cases v with
  | none => exact True.intro
  | some w => exact Built.suits_one (h w rfl)

theorem orNull_fits {v : Value} (hv : v.fits role = true) : (orNull v).fits role = true := by
  unfold orNull
  split
  · rfl
  · exact hv

/-- A builder that gets operands where it needs them makes what its role says. -/
theorem Builder.make_suits {b : Builder} (hb : b.accepts s = true) (ht : HasShape s t) :
    (b.make t).Suits (b.role s.items) := by
  simp only [Builder.accepts, Bool.and_eq_true, List.all_eq_true, Bool.or_eq_true,
    Bool.not_eq_true', beq_iff_eq] at hb
  have hlabel {name : String} (h : name ∈ b.operandLabels) : name ∉ s.statements := by
    simpa using hb.1 name h
  have hsuits (name : String) (h : name ∈ b.operandLabels) : (t.get name).suits .operand = true :=
    ht.get_operand (hlabel h)
  have hfits {name : String} (h : name ∈ b.operandLabels) : (t.get name).fits .operand = true :=
    Value.fits_of_suits (hsuits name h)
  have hbody (name : String) : (t.get name).fits .statement = true :=
    Value.fits_of_suits (suits_statement (ht.get name))
  have hitem : b.needsOperands = true → ∀ v ∈ t.items, v.suits .operand = true := by
    intro h v hv
    rcases hb.2 with hneeds | hoperand
    · exact nomatch hneeds.symm.trans h
    · exact hoperand ▸ ht.items v hv
  have hall : ∀ v ∈ t.items, v.suits .statement = true := fun v hv ↦
    suits_statement (ht.items v hv)
  cases b with
  | firstItem =>
    exact Built.suits_ofOption fun w hw ↦ ht.items w (List.mem_of_mem_head? hw)
  | oneSpace => exact Built.suits_one rfl
  | wholeNumbers => exact readWholeNumbers_suits _
  | booleanLiteral | filePointer =>
    refine Built.suits_ofOption fun w hw ↦ ?_
    obtain ⟨v, -, rfl⟩ := Option.map_eq_some_iff.mp hw
    rfl
  | decimal =>
    unfold Builder.make
    dsimp only
    split
    · exact True.intro
    · split
      · exact Built.suits_one rfl
      · exact True.intro
  | octal | hexadecimal => exact buildNumber_suits _
  | fraction => exact buildFraction_suits
  | chr | asc | strReverse =>
    exact buildOne_suits (fun _ ↦ rfl) fun v hv ↦ Value.fits_of_suits (hitem rfl v hv)
  | operation op =>
    refine buildOne_suits (fun _ ↦ rfl) fun v hv ↦ (fitAll_iff _ _).mpr fun w hw ↦ ?_
    exact Value.fits_of_suits
      (suits_items_tokensOf (hitem rfl v hv) w (mem_of_mem_operandsOf hw))
  | member => exact buildMember_suits (hitem rfl)
  | comparison => exact buildComparison_suits (hitem rfl)
  | condition =>
    unfold Builder.make
    dsimp only
    split
    · exact True.intro
    · next v _ heq => exact buildCondition_suits (hitem rfl v (heq ▸ List.mem_cons_self))
  | dim => exact buildDim_suits (hitem rfl)
  | globalVar => exact buildGlobalVar_suits (hitem rfl)
  | forLoop =>
    exact buildForLoop_suits ht (hfits (by decide)) (hfits (by decide)) (hlabel (by decide))
  | selectClause => exact buildSelectClause_suits (hsuits "select_val" (by decide))
  | caseClause => exact buildCaseClause_suits (hfits (by decide))
  | codeModule => exact buildModule_suits hall
  | simpleName | me | unknown | attributeLine | optionLine | parameter | external | property
  | exitFor | exitDo | exitProcedure | redim | goto | label | onError =>
    exact Built.suits_node rfl rfl
  | environ | call | new => exact Built.suits_node (hfits (by decide)) rfl
  | element =>
    exact Built.suits_node (Bool.and_eq_true_iff.mpr ⟨hfits (by decide), hfits (by decide)⟩) rfl
  | assign =>
    refine Built.suits_node ?_ rfl
    simp only [Node.fits, Bool.and_eq_true]
    exact ⟨rfl, orNull_fits (hfits (by decide)), hfits (by decide)⟩
  | print =>
    refine Built.suits_node ?_ rfl
    simp only [Node.fits, Bool.and_eq_true]
    exact ⟨rfl, hfits (by decide), hfits (by decide)⟩
  | callStatement | openFile =>
    refine Built.suits_node ?_ rfl
    simp only [Node.fits, Bool.and_eq_true]
    exact ⟨rfl, hfits (by decide)⟩
  | forEach =>
    have hclause := hasShape_tokensOf (hsuits "clause" (by decide))
    refine Built.suits_node ?_ rfl
    simp only [Node.fits, Bool.and_eq_true]
    exact ⟨rfl, Value.fits_of_suits (hclause.get "container"), hbody "statements"⟩
  | whileLoop =>
    have hclause := hasShape_tokensOf (hsuits "clause" (by decide))
    unfold Builder.make
    dsimp only
    split
    · next body _ heq =>
      refine Built.suits_node ?_ rfl
      simp only [Node.fits, Bool.and_eq_true]
      exact ⟨rfl, Value.fits_of_suits (hclause.get "guard"),
        Value.fits_of_suits (hall body (heq ▸ by simp))⟩
    · exact True.intro
  | doLoop =>
    unfold Builder.make
    dsimp only
    split
    · exact True.intro
    · next body _ heq =>
      refine Built.suits_node ?_ rfl
      simp only [Node.fits, Bool.and_eq_true]
      exact ⟨rfl, hfits (by decide), Value.fits_of_suits (hall body (heq ▸ by simp))⟩
  | selectCase =>
    refine Built.suits_node ?_ rfl
    simp only [Node.fits, Bool.and_eq_true]
    exact ⟨rfl, hbody "case_val", hbody "body"⟩
  | select =>
    refine Built.suits_node ?_ rfl
    simp only [Node.fits, Bool.and_eq_true]
    exact ⟨rfl, hbody "select_val", hbody "cases"⟩
  | conditional | directive =>
    exact Built.suits_node (Bool.and_eq_true_iff.mpr ⟨rfl, branchesOf_fit hall⟩) rfl
  | withBlock =>
    unfold Builder.make
    dsimp only
    split
    · next body _ heq =>
      refine Built.suits_node ?_ rfl
      simp only [Node.fits, Bool.and_eq_true]
      exact ⟨rfl, Value.fits_of_suits (hall body (heq ▸ by simp))⟩
    · exact True.intro
  | sub | function =>
    exact Built.suits_node
      (Bool.and_eq_true_iff.mpr ⟨hbody "statements", trailingOf_fits ht⟩) rfl

theorem Builder.apply_suits {b : Builder} (hb : b.accepts s = true) (ht : HasShape s t) :
    (b.apply t).Suits (b.role s.items) :=
  apply_induct (b.make_suits hb ht) True.intro

end

end Grammar

end VbaTrace
