import VbaTrace.Proofs.CharacterLoops
import VbaTrace.Proofs.DerivedTokens
import VbaTrace.Proofs.Recall
import VbaTrace.Proofs.Stripping

/-!
The variables that a module declares. A declaration list has one group of tokens for each of its
variables: the name, then a type or brackets, then a sign and the initial value (`Describes`). Of all
this a module takes the first and the third token of the first group, whatever they are
(`DeclaredVariable.stored`). Every declaration list of a module that can be read is of this form
(`only_moduleItems`, `declaresFirst_of_mem`).

So loading a module binds the first name of each list (`binds_first`), and no further one
(`find?_declaring_of_undeclared`). Reading a name gives what is bound to it as it is
(`readsAs_of_find?`): an initial value that is an operation stays an operation, and behind a type it is
the sign that is read instead of the value.
-/

set_option autoImplicit false

namespace VbaTrace

namespace Grammar

/-! Variables -/

/-- What may stand behind the name of a variable: a type, brackets, or both. -/
inductive Clause
  | none
  | type (t : Value)
  | array
  | typedArray (t : Value)

def Clause.items : Clause → List Value
  | none => []
  | type t => [t]
  | array => [.text "(", .text ")"]
  | typedArray t => [.text "(", .text ")", t]

/-- A variable of a declaration list, as it is written. -/
structure DeclaredVariable where
  name : String
  clause : Clause
  initial : Option Value

namespace DeclaredVariable

def items (d : DeclaredVariable) : List Value :=
  .text d.name :: (d.clause.items ++ d.initial.elim [] fun v ↦ [.text "=", v])

/-- What a module takes as the value of the variable: the third token, whatever it is. -/
def stored (d : DeclaredVariable) : Value :=
  match d.clause, d.initial with
  | .none, some v => v
  | .type _, some _ => .text "="
  | .array, _ | .typedArray _, _ => .text ")"
  | _, none => .empty

/-- The name under which the variable is found. -/
def key (d : DeclaredVariable) : String :=
  Text.lower d.name

/-- What procedures find: a name of a constant is set anew with every frame. -/
def seen (d : DeclaredVariable) : Value :=
  (globalConstants.find? d.key).getD d.stored

end DeclaredVariable

/-- The tokens of a declaration list are those of its variables. -/
def Describes (ds : List DeclaredVariable) (source : Tokens) : Prop :=
  List.Forall₂ (fun d v ↦ ∃ labels, v = .tokens (.mk d.items labels)) ds source.items

section

variable {t : Tokens}

theorem items_of_arrayDim (h : Derives Pattern.arrayDim t) : t.items = [.text "(", .text ")"] := by
  cases h with
  | seq hfront hclose =>
    cases hfront with
    | seq hopen hbounds =>
      cases hbounds
      rw [Tokens.items_append, Tokens.items_append, items_of_lit hopen, items_of_lit hclose]
      rfl

theorem items_of_asClause (h : Derives Pattern.asClause t) : ∃ v, t.items = [v] :=
  List.length_eq_one_iff.mp (hasCount_asClause t h)

theorem items_of_arrayClause (h : Derives Pattern.arrayClause t) :
    ∃ clause : Clause, t.items = clause.items := by
  cases h with
  | seq hbrackets htype =>
    rw [Tokens.items_append, items_of_arrayDim hbrackets]
    cases htype with
    | omitted => exact ⟨.array, rfl⟩
    | present htype =>
      obtain ⟨v, hv⟩ := items_of_asClause htype
      rw [hv]
      exact ⟨.typedArray v, rfl⟩

/-- The name of a variable, and what stands behind it. -/
theorem items_of_variable (h : Derives (Pattern.typedVariable <|> Pattern.untypedVariable) t) :
    ∃ (name : String) (clause : Clause), t.items = .text name :: clause.items := by
  cases h with
  | firstLeft h =>
    cases h with
    | seq hname hbrackets =>
      obtain ⟨name, hname⟩ := items_of_typedName hname
      rw [Tokens.items_append, hname]
      cases hbrackets with
      | omitted => exact ⟨name, .none, rfl⟩
      | present hbrackets =>
        rw [items_of_arrayDim hbrackets]
        exact ⟨name, .array, rfl⟩
  | firstRight h =>
    cases h with
    | seq hname hclause =>
      obtain ⟨name, hname⟩ := items_of_identifier hname
      rw [Tokens.items_append, hname]
      cases hclause with
      | omitted => exact ⟨name, .none, rfl⟩
      | present hclause =>
        cases hclause with
        | firstLeft harray =>
          obtain ⟨clause, hitems⟩ := items_of_arrayClause harray
          rw [hitems]
          exact ⟨name, clause, rfl⟩
        | firstRight htype =>
          obtain ⟨v, hv⟩ := items_of_asClause htype
          rw [hv]
          exact ⟨name, .type v, rfl⟩

theorem items_of_variableDeclaration (h : Derives (.rule .variableDeclaration) t) :
    ∃ d : DeclaredVariable, t.items = d.items ∧
      ∀ v ∈ d.initial, Semantics.isCallable v = false := by
  cases h with
  | rule h =>
    cases h with
    | seq hname hinitial =>
      obtain ⟨name, clause, hitems⟩ := items_of_variable hname
      rw [Tokens.items_append, hitems]
      cases hinitial with
      | omitted => exact ⟨⟨name, clause, none⟩, rfl, nofun⟩
      | present hinitial =>
        cases hinitial with
        | seq hsign hvalue =>
          cases hvalue with
          | label hvalue =>
            obtain ⟨v, hv, hplain⟩ := items_of_expression hvalue
            rw [Tokens.items_append, items_of_lit hsign, items_labelled, hv]
            refine ⟨⟨name, clause, some v⟩, rfl, ?_⟩
            rintro w ⟨⟩
            exact hplain

/-- The value is a variable of a declaration list. -/
def IsVariable (v : Value) : Prop :=
  ∃ d : DeclaredVariable, (∃ labels, v = .tokens (.mk d.items labels)) ∧
    ∀ w ∈ d.initial, Semantics.isCallable w = false

theorem only_variableDeclarations : (Pattern.rule .variableDeclarations).Only IsVariable := by
  have hgroup : (Pattern.group (.rule .variableDeclaration)).Only IsVariable := by
    intro t ht
    cases ht with
    | @group _ t ht =>
      obtain ⟨d, hitems, hplain⟩ := items_of_variableDeclaration ht
      obtain ⟨items, labels⟩ := t
      cases hitems
      exact List.forall_mem_singleton.mpr ⟨d, ⟨labels, rfl⟩, hplain⟩
  exact only_rule (only_seq hgroup (only_many (only_seq (only_drop _) hgroup)))

theorem exists_describes (h : ∀ v ∈ t.items, IsVariable v) :
    ∃ ds, Describes ds t ∧ ∀ d ∈ ds, ∀ w ∈ d.initial, Semantics.isCallable w = false := by
  obtain ⟨items, labels⟩ := t
  induction items with
  | nil => exact ⟨[], .nil, nofun⟩
  | cons v vs ih =>
    obtain ⟨⟨d, hd, hplain⟩, hvs⟩ := List.forall_mem_cons.mp h
    obtain ⟨ds, hds, hplains⟩ := ih hvs
    exact ⟨d :: ds, .cons hd hds, List.forall_mem_cons.mpr ⟨hplain, hplains⟩⟩

theorem buildGlobalVar_of_describes {d : DeclaredVariable} {rest : List DeclaredVariable}
    (h : Describes (d :: rest) t) :
    buildGlobalVar t = .node (.globalVar (.text d.name) d.stored t) := by
  obtain ⟨items, labels⟩ := t
  cases h with
  | cons hd _ =>
    obtain ⟨groupLabels, rfl⟩ := hd
    obtain ⟨name, clause, initial⟩ := d
    cases clause <;> cases initial <;> rfl

/-- The tokens tell the name of the first variable, and what is stored for it. -/
theorem Describes.first_unique {d d' : DeclaredVariable} {rest rest' : List DeclaredVariable}
    (h : Describes (d :: rest) t) (h' : Describes (d' :: rest') t) :
    d'.name = d.name ∧ d'.stored = d.stored := by
  have hsame := (buildGlobalVar_of_describes h').symm.trans (buildGlobalVar_of_describes h)
  simpa [Built.node, Built.one] using hsame

end

/-! Modules -/

/-- A node that declares variables has the name of the first of them, with what is stored for it. -/
def DeclaresFirst (v : Value) : Prop :=
  ∀ name value source, v = .node (.globalVar name value source) →
    ∃ d rest, Describes (d :: rest) source ∧ name = .text d.name ∧ value = d.stored ∧
      Semantics.isCallable d.stored = false

theorem declaresFirst_text (s : String) : DeclaresFirst (.text s) :=
  nofun

theorem only_lexeme (l : Lexeme) : (Pattern.lexeme l).Only DeclaresFirst := by
  intro t ht
  cases ht with
  | lexeme hscan => exact forall_mem_of_ofLexeme declaresFirst_text hscan

theorem only_keywords (words : List String) : (Pattern.keywords words).Only DeclaresFirst := by
  induction words with
  | nil =>
    intro t ht
    cases ht
    exact nofun
  | cons word words ih =>
    cases words with
    | nil => exact only_lexeme _
    | cons => exact only_first (only_lexeme _) ih

theorem not_isCallable_stored {d : DeclaredVariable}
    (h : ∀ w ∈ d.initial, Semantics.isCallable w = false) :
    Semantics.isCallable d.stored = false := by
  obtain ⟨name, clause, initial⟩ := d
  cases clause <;> cases initial <;> first | rfl | exact h _ rfl

theorem only_globalDeclaration : (Pattern.rule .globalDeclaration).Only DeclaresFirst := by
  have hvariables : (Pattern.drop (.optional (.ref .publicPrivate)) ++
      Pattern.drop (.optional (.kw "Shared")) ++ Pattern.drop (.optional (.kw "Const")) ++
      Pattern.ref .variableDeclarations).Only IsVariable :=
    only_seq (only_seq (only_seq (only_drop _) (only_drop _)) (only_drop _))
      only_variableDeclarations
  refine only_rule fun t ht ↦ ?_
  cases ht with
  | @build _ _ t vs ht hvs =>
    obtain ⟨ds, hds, hplain⟩ := exists_describes (hvariables t ht)
    cases ds with
    | nil =>
      obtain ⟨items, labels⟩ := t
      cases hds
      exact nomatch hvs
    | cons d rest =>
      replace hvs := Builder.make_of_apply hvs
      rw [Builder.make, buildGlobalVar_of_describes hds] at hvs
      cases hvs
      refine List.forall_mem_singleton.mpr fun name value source heq ↦ ?_
      cases heq
      exact ⟨d, rest, hds, rfl, rfl, not_isCallable_stored (hplain d List.mem_cons_self)⟩

theorem only_dimStatement : (Pattern.rule .dimStatement).Only DeclaresFirst := by
  refine only_rule (only_build (b := .dim) (fun t vs hvs ↦ ?_) _)
  unfold Builder.make buildDim at hvs
  dsimp only at hvs
  split at hvs
  · exact nomatch hvs
  · cases hvs
    exact List.forall_mem_singleton.mpr nofun

/-- A type is declared by bare words. -/
theorem only_typeDeclaration : (Pattern.rule .typeDeclaration).Only DeclaresFirst := by
  have hmember := only_seq (only_seq (only_seq (only_lexeme (.word .letters .identifierChars))
    (only_lexeme (.keyword "As".toList))) (only_rule (r := .reservedType) (only_keywords _)))
    (only_drop (.ref .endOfStatement))
  have htitle := only_seq (only_seq (only_seq (only_keywords ["Public", "Private"])
    (only_lexeme (.keyword "Type".toList))) (only_lexeme (.word .letters .identifierChars)))
    (only_drop (.ref .endOfStatement))
  exact only_rule (only_seq (only_seq (only_seq htitle (only_atLeastOne hmember))
    (only_lexeme _)) (only_lexeme _))

/-- What stands in a module. -/
def moduleItems : Pattern := Pattern.ref .moduleHeader ++ Pattern.ref .moduleBody

/-- Rule by rule: whatever else a module holds is built as another node, or is a text. -/
theorem only_moduleItems : moduleItems.Only DeclaresFirst := by
  have hattribute : (Pattern.rule .attributeStatement).Only DeclaresFirst :=
    only_rule (only_build_node (fun _ ↦ rfl) (fun _ ↦ nofun) _)
  have hoption : (Pattern.rule .optionStatement).Only DeclaresFirst :=
    only_rule (only_build_node (fun _ ↦ rfl) (fun _ ↦ nofun) _)
  have hdirective : (Pattern.rule .directiveIf).Only DeclaresFirst :=
    only_rule (only_build_node (fun _ ↦ rfl) (fun _ ↦ nofun) _)
  have hexternal : (Pattern.rule .externalFunction).Only DeclaresFirst :=
    only_rule (only_build_node (fun _ ↦ rfl) (fun _ ↦ nofun) _)
  have hsub : (Pattern.rule .sub).Only DeclaresFirst :=
    only_rule (only_build_node (fun _ ↦ rfl) (fun _ ↦ nofun) _)
  have hfunction : (Pattern.rule .function).Only DeclaresFirst :=
    only_rule (only_build_node (fun _ ↦ rfl) (fun _ ↦ nofun) _)
  have hheader : (Pattern.rule .headerLine).Only DeclaresFirst := by
    have hattributes := only_seq hattribute (only_many (only_seq (only_drop (.lit ":")) hattribute))
    exact only_rule (only_first (only_seq (only_optional hattributes) (only_drop _))
      (only_first hoption (only_first only_typeDeclaration hdirective)))
  have hstatement : (Pattern.rule .declarationStatement).Only DeclaresFirst :=
    only_rule (only_first hoption
      (only_first only_dimStatement (only_first only_globalDeclaration hexternal)))
  have hline : (Pattern.rule .declarationLine).Only DeclaresFirst := by
    have hstatements := only_seq hstatement (only_many (only_seq (only_drop (.lit ":")) hstatement))
    exact only_rule (only_seq (only_optional hstatements) (only_drop _))
  have hcode : (Pattern.rule .moduleCode).Only DeclaresFirst :=
    only_rule (only_many (only_first hoption (only_first hsub (only_first hfunction (only_drop _)))))
  exact only_seq (only_rule (only_many hheader))
    (only_rule (only_seq (only_rule (only_many hline)) hcode))

/-! Reading a module -/

/-- The module that is put together from its items. -/
def moduleOf (t : Tokens) : Node :=
  let p := t.items.foldl ModuleParts.add {}
  .codeModule ((Binding.find? "VB_Name" p.attributes).getD .null) p.attributes p.subs p.functions
    p.externals p.globalVars

/-- What reading the items of a module ends with. -/
def moduleOutcome (text : String) : Outcome :=
  let c := enter (.rule .codeModule) true .normal (startOf text)
  (Id.run ((moduleItems.run (recallRule (depthFor text - 1)) false .normal c).run {})).1

/-- Reads the items of a module, without putting them together. It is no module if it cannot be
shown. -/
def readModuleItems (text : String) : Option Tokens :=
  match moduleOutcome text with
  | .matched d t =>
    if (moduleOf t).isWritable && (restAfter .codeModule d).atEnd then some t else none
  | _ => none

theorem depthFor_eq (text : String) : depthFor text = depthFor text - 1 + 1 := by
  unfold depthFor depthBound
  omega

/-- Reading a module is reading its items and putting them together. -/
theorem recallRule_codeModule (text : String) :
    (Id.run ((recallRule (depthFor text) .codeModule .normal
      (enter (.rule .codeModule) true .normal (startOf text))).run {})).1 =
      (moduleOutcome text).built .codeModule := by
  rw [depthFor_eq]
  unfold moduleOutcome
  dsimp only
  generalize depthFor text - 1 = depth
  generalize enter (.rule .codeModule) true .normal (startOf text) = c
  rcases hitems : (moduleItems.run (recallRule depth) false .normal c).run {} with ⟨o, memory⟩
  have hrun : ((Pattern.ofRule .codeModule).run (recallRule depth) false .normal c).run {} =
      (o.built .codeModule, memory) := by
    change ((moduleItems.run (recallRule depth) false .normal c >>= fun o ↦
      pure (o.built .codeModule)).run {}) = _
    rw [StateT.run_bind, hitems]
    rfl
  obtain ⟨kept, hread, -⟩ := recallRule_of_none Std.TreeMap.getElem?_emptyc hrun
  rw [hread]
  rfl

theorem readEchoing_codeModule (text : String) :
    (readEchoing .codeModule true text).1.toOption =
      (readModuleItems text).map fun t ↦ .ofList [.node (moduleOf t)] := by
  have hrecalled := recallRule_codeModule text
  unfold depthFor startOf at hrecalled
  unfold readEchoing readFront readModuleItems
  dsimp only
  rw [hrecalled]
  cases moduleOutcome text with
  | matched d t =>
    have hmake : Builder.codeModule.make t = .node (moduleOf t) := rfl
    dsimp only
    cases hwritable : (moduleOf t).isWritable with
    | true =>
      rw [Outcome.built_node hmake hwritable, Bool.true_and]
      unfold Reading.complete
      dsimp only
      rw [if_pos rfl]
      split_ifs <;> rfl
    | false =>
      have hfaulty : Builder.codeModule.apply t = .faulty .wrongValue := by
        simp [Builder.apply, hmake, Built.node, Built.one, Builder.isLogged, allWritable,
          Value.isWritable, hwritable]
      rw [Outcome.built, hfaulty, Bool.false_and]
      rfl
  | _ => rfl

theorem derives_of_readModuleItems {text : String} {t : Tokens} (h : readModuleItems text = some t) :
    Derives moduleItems t := by
  have hknown : moduleItems.wellFormed = true := by decide
  unfold readModuleItems at h
  split at h
  · next hmatched =>
    split_ifs at h
    cases h
    exact derives_of_matched hknown rfl hmatched
  · exact nomatch h

end Grammar

/-! What a module declares -/

/-- The item of a module that declares a variable under this key. -/
def Value.declaresVariable (key : String) : Value → Bool
  | .node (.globalVar name _ _) => Text.lower name.display == key
  | _ => false

/-- The item of a module that declares a variable or a procedure under this key. -/
def Value.declares (key : String) : Value → Bool
  | .node (.sub name _ _ _) | .node (.function name _ _ _ _) | .node (.external name _ _ _ _)
  | .node (.globalVar name _ _) => Text.lower name.display == key
  | _ => false

/-- All that becomes a global name, in the order in which it does. -/
def Declarations.all (d : Declarations) : List Binding :=
  d.subs ++ d.functions ++ d.externals ++ d.globalVars

theorem Machine.globals_declaring (m : Machine) (d : Declarations) :
    (m.declaring d).globals = m.globals.declare d.all := by
  simp [declaring, Declarations.all, Globals.declare]

/-- The last declaration of a name counts. -/
theorem Globals.find?_declare (g : Globals) (bs : List Binding) (key : String) :
    (g.declare bs).find? key =
      ((bs.reverse.find? fun b ↦ Text.lower b.name == key).map Binding.value).or (g.find? key) := by
  induction bs generalizing g with
  | nil => rfl
  | cons b bs ih =>
    have hstep : g.declare (b :: bs) = (g.put (Text.lower b.name) b.value).declare bs := rfl
    rw [hstep, ih, Globals.find?_put, List.reverse_cons, List.find?_append]
    cases bs.reverse.find? fun b ↦ Text.lower b.name == key with
    | some c => rfl
    | none => cases hb : Text.lower b.name == key <;> simp [hb]

theorem Globals.find?_declare_of_unnamed {bs : List Binding} {key : String}
    (h : ∀ b ∈ bs, Text.lower b.name ≠ key) (g : Globals) :
    (g.declare bs).find? key = g.find? key := by
  have hnone : (bs.reverse.find? fun b ↦ Text.lower b.name == key) = none := by
    simpa using h
  rw [find?_declare, hnone]
  rfl

theorem Globals.find?_declare_of_named {bs : List Binding} {key : String} {v : Value}
    (hsome : ∃ b ∈ bs, Text.lower b.name = key)
    (hall : ∀ b ∈ bs, Text.lower b.name = key → b.value = v) (g : Globals) :
    (g.declare bs).find? key = some v := by
  obtain ⟨b, hb, hname⟩ := hsome
  have hfound : (bs.reverse.find? fun b ↦ Text.lower b.name == key).isSome = true := by
    rw [List.find?_isSome]
    exact ⟨b, List.mem_reverse.mpr hb, by simp [hname]⟩
  obtain ⟨c, hc⟩ := Option.isSome_iff_exists.mp hfound
  have hkey : Text.lower c.name = key := by simpa using List.find?_some hc
  have hmem : c ∈ bs := List.mem_reverse.mp (List.mem_of_find?_eq_some hc)
  rw [find?_declare, hc, Option.map_some, hall c hmem hkey, Option.some_or]

section

variable {b : Binding} {bs : List Binding} {name : String} {v : Value}

theorem Binding.mem_put (h : b ∈ put name v bs) : b = .mk name v ∨ b ∈ bs := by
  induction bs with
  | nil => exact .inl (List.mem_singleton.mp h)
  | cons c bs ih =>
    rw [put] at h
    split at h
    · exact (List.mem_cons.mp h).imp_right (List.mem_cons_of_mem c)
    · rcases List.mem_cons.mp h with rfl | h
      · exact .inr List.mem_cons_self
      · exact (ih h).imp_right (List.mem_cons_of_mem c)

theorem Binding.map_name_put (name : String) (v : Value) (bs : List Binding) :
    (put name v bs).map Binding.name =
      if name ∈ bs.map Binding.name then bs.map Binding.name else bs.map Binding.name ++ [name] := by
  induction bs with
  | nil => rfl
  | cons c bs ih =>
    rw [put]
    by_cases hc : c.name = name
    · have hname : (Binding.mk name v).name = name := rfl
      simp [hc, hname]
    · rw [if_neg (by simpa using hc), List.map_cons, ih]
      by_cases hmem : name ∈ bs.map Binding.name <;> simp [hmem, Ne.symm hc]

end

namespace Grammar

namespace ModuleParts

variable {p : ModuleParts} {b : Binding} {v : Value} {vs : List Value} {name : String}

def declarations (p : ModuleParts) : Declarations :=
  ⟨p.subs, p.functions, p.externals, p.globalVars⟩

/-- What an item adds to the declarations has its name. -/
theorem declares_of_mem_add (h : b ∈ (p.add v).declarations.all) :
    b ∈ p.declarations.all ∨ v.declares (Text.lower b.name) = true := by
  have hput {name : String} {w : Value} {bs : List Binding} (hb : b ∈ Binding.put name w bs) :
      b ∈ bs ∨ (Text.lower name == Text.lower b.name) = true := by
    rcases Binding.mem_put hb with rfl | hb
    · exact .inr (beq_self_eq_true _)
    · exact .inl hb
  cases v with
  | node n =>
    cases n <;> simp only [add, declarations, Declarations.all, List.mem_append] at h ⊢
    all_goals grind [Value.declares]
  | _ => exact .inl h

theorem mem_globalVars_add (h : b ∈ (p.add v).globalVars) :
    b ∈ p.globalVars ∨
      ∃ name value source, v = .node (.globalVar name value source) ∧ b = .mk name.display value := by
  cases v with
  | node n =>
    cases n with
    | globalVar name value source =>
      exact (Binding.mem_put h).symm.imp_right fun hb ↦ ⟨name, value, source, rfl, hb⟩
    | _ => exact .inl h
  | _ => exact .inl h

theorem mem_names_add (h : name ∈ p.globalVars.map Binding.name) (v : Value) :
    name ∈ (p.add v).globalVars.map Binding.name := by
  cases v with
  | node n =>
    cases n with
    | globalVar other value source =>
      rw [add, Binding.map_name_put]
      split_ifs
      · exact h
      · exact List.mem_append_left _ h
    | _ => exact h
  | _ => exact h

/-! All items of a module, one after another -/

theorem declares_of_mem_foldl (h : b ∈ (vs.foldl add p).declarations.all) :
    b ∈ p.declarations.all ∨ ∃ v ∈ vs, v.declares (Text.lower b.name) = true := by
  induction vs generalizing p with
  | nil => exact .inl h
  | cons v vs ih =>
    rcases ih h with h | ⟨w, hw, hname⟩
    · exact (declares_of_mem_add h).imp_right fun hname ↦ ⟨v, List.mem_cons_self, hname⟩
    · exact .inr ⟨w, List.mem_cons_of_mem v hw, hname⟩

theorem mem_globalVars_foldl (h : b ∈ (vs.foldl add p).globalVars) :
    b ∈ p.globalVars ∨ ∃ name value source,
      .node (.globalVar name value source) ∈ vs ∧ b = .mk name.display value := by
  induction vs generalizing p with
  | nil => exact .inl h
  | cons v vs ih =>
    rcases ih h with h | ⟨name, value, source, hmem, hb⟩
    · refine (mem_globalVars_add h).imp_right ?_
      rintro ⟨name, value, source, rfl, hb⟩
      exact ⟨name, value, source, List.mem_cons_self, hb⟩
    · exact .inr ⟨name, value, source, List.mem_cons_of_mem v hmem, hb⟩

theorem mem_names_foldl (h : name ∈ p.globalVars.map Binding.name) :
    name ∈ (vs.foldl add p).globalVars.map Binding.name := by
  induction vs generalizing p with
  | nil => exact h
  | cons v vs ih => exact ih (mem_names_add h v)

theorem display_mem_names {title value : Value} {source : Tokens}
    (h : .node (.globalVar title value source) ∈ vs) :
    title.display ∈ (vs.foldl add p).globalVars.map Binding.name := by
  obtain ⟨before, after, rfl⟩ := List.mem_iff_append.mp h
  rw [List.foldl_append, List.foldl_cons]
  refine mem_names_foldl ?_
  rw [add, Binding.map_name_put]
  split_ifs with hold
  · exact hold
  · exact List.mem_append_right _ List.mem_cons_self

end ModuleParts

end Grammar

open Grammar in
/-- A name that no item of a module declares keeps what it had. -/
theorem find?_declaring_of_undeclared {u : Tokens} {key : String}
    (h : ∀ v ∈ u.items, v.declares key = false) (m : Machine) :
    (m.declaring (moduleOf u).declarations).globals.find? key = m.globals.find? key := by
  rw [Machine.globals_declaring]
  refine Globals.find?_declare_of_unnamed (fun b hb hkey ↦ ?_) _
  rcases ModuleParts.declares_of_mem_foldl (p := {}) hb with hb | ⟨v, hv, hname⟩
  · exact nomatch hb
  · rw [hkey, h v hv] at hname
    exact nomatch hname

open Grammar in
/-- A variable that one item of a module declares is bound to what is stored in this item. -/
theorem find?_declaring_of_once {u : Tokens} {before after : List Value} {name value : Value}
    {source : Tokens} (hu : u.items = before ++ .node (.globalVar name value source) :: after)
    (honce : ∀ v ∈ before ++ after, v.declaresVariable (Text.lower name.display) = false)
    (m : Machine) :
    (m.declaring (moduleOf u).declarations).globals.find? (Text.lower name.display) =
      some value := by
  have hmem : .node (.globalVar name value source) ∈ u.items := by simp [hu]
  obtain ⟨b, hb, hname⟩ := List.mem_map.mp (ModuleParts.display_mem_names (p := {}) hmem)
  refine Globals.find?_declare_of_named ⟨b, hb, congrArg Text.lower hname⟩ (fun c hc hkey ↦ ?_) _
  rcases ModuleParts.mem_globalVars_foldl (p := {}) hc with hc | ⟨name', value', source', hitem, rfl⟩
  · exact nomatch hc
  · rw [hu, List.mem_append, List.mem_cons, or_left_comm, ← List.mem_append] at hitem
    rcases hitem with heq | hitem
    · cases heq
      rfl
    · have hother := honce _ hitem
      rw [Value.declaresVariable, beq_eq_false_iff_ne] at hother
      exact absurd hkey hother

/-! Reading a name in a procedure -/

/-- Where the machine is, the name is that of a global variable, which is bound as told. -/
structure Machine.Sees (m : Machine) (g : Globals) (key : String) : Prop where
  kept : m.globals.find? key = g.find? key
  unshadowed : m.frame.locals.find? key = none
  outside : m.frame.withName = ""

/-- A new frame, such as the one in which tracing starts, sees all global variables. -/
theorem Machine.sees_newFrame (m : Machine) (g : Globals) (key : String) :
    Machine.Sees { m with frame := {}, globals := g } g key :=
  ⟨rfl, rfl, rfl⟩

namespace Semantics

variable {g : Globals} {name : String} {v w : Value}

/-- With these globals, a procedure that reads the name gets the value as it is, if it can be written. -/
def ReadsAs (g : Globals) (name : String) (v : Value) : Prop :=
  ∀ m : Machine, m.Sees g (Text.lower name) → ∀ rounds depth,
    evaluate rounds (depth + 1) (.node (.simpleName name)) none m =
      (do ensureWritable v; return v : Eval Value) m

theorem ReadsAs.unique (hv : ReadsAs g name v) (hw : ReadsAs g name w) {m : Machine}
    (hm : m.Sees g (Text.lower name)) (hvwritable : (m.heap.resolve v).isWritable = true)
    (hwwritable : (m.heap.resolve w).isWritable = true) : v = w := by
  have hsame := (hv _ hm 0 0).symm.trans (hw _ hm 0 0)
  rw [Eval.bind_of_ok (ensureWritable_of_isWritable hvwritable),
    Eval.bind_of_ok (ensureWritable_of_isWritable hwwritable)] at hsame
  exact (EStateM.Result.ok.inj hsame).1

/-- What is bound to a name is not evaluated when the name is read, unless it is a procedure. -/
theorem readsAs_of_find? (hv : g.find? (Text.lower name) = some v) (hcallable : isCallable v = false) :
    ReadsAs g name v := by
  intro m hm rounds depth
  have hlookup : m.lookup name = some v := by
    rw [lookup_eq, hm.unshadowed, hm.kept, hv]
    rfl
  cases hwritable : (m.heap.resolve v).isWritable with
  | true =>
    rw [Eval.bind_of_ok (ensureWritable_of_isWritable hwritable)]
    exact gives_name hm.outside hlookup hwritable hcallable
  | false =>
    have hrefused := ensureWritable_of_not_isWritable hwritable
    rw [Eval.bind_of_error hrefused]
    refine (Eval.handle_of_error (f := .wrongValue) ?_ _ _).trans rfl
    rw [Eval.bind_of_ok (fetch_of_outside hm.outside hlookup)]
    exact Eval.bind_of_error hrefused _

theorem readsAs_of_unbound (hnone : g.find? (Text.lower name) = none)
    (hentry : Library.entry? (Text.lower name) = none) : ReadsAs g name .empty := by
  intro m hm rounds depth
  have hresolve : m.resolve? name = none := by
    rw [Machine.resolve?, hm.outside, String.empty_append, lookup_eq, hm.unshadowed, hm.kept, hnone,
      hentry]
    rfl
  exact Eval.handle_of_error (Eval.bind_of_error (fetch_of_none hresolve) _) _ _

end Semantics

theorem Globals.find?_install_congr {g g' : Globals} {key : String}
    (h : g'.find? key = g.find? key) : g'.install.find? key = g.install.find? key := by
  unfold Globals.find? at h ⊢
  split_ifs at h ⊢
  · rfl
  · exact h

open Grammar in
/-- Procedures find what is stored for a variable, unless its name is that of a constant. -/
theorem readsAs_seen {g : Globals} {d : DeclaredVariable} (hfind : g.find? d.key = some d.stored)
    (hcallable : Semantics.isCallable d.stored = false) :
    Semantics.ReadsAs g.install d.name d.seen := by
  have hconstants : ∀ e ∈ globalConstants.entries, Semantics.isCallable e.2 = false := by decide
  have hinstalled := Globals.find?_install g d.key
  rw [Globals.find?] at hfind
  rw [isConstantName, Table.has] at hfind hinstalled
  unfold DeclaredVariable.seen
  cases hconstant : globalConstants.find? d.key with
  | some v =>
    rw [hconstant] at hinstalled
    exact Semantics.readsAs_of_find? hinstalled (hconstants _ (Table.mem_of_find? hconstant))
  | none =>
    rw [hconstant] at hfind hinstalled
    exact Semantics.readsAs_of_find? (hinstalled.trans hfind) hcallable

namespace Engine

open Grammar

/-- The items of the module that a text is read as, when it can be read. -/
def moduleTokens? (code : String) : Option Tokens :=
  match Source.collapse code with
  | .error _ => none
  | .ok text => readModuleItems text

theorem readModule?_eq (code : String) : readModule? code = (moduleTokens? code).map moduleOf := by
  unfold readModule? moduleTokens?
  cases Source.collapse code with
  | error f => rfl
  | ok text =>
    dsimp only
    rw [readEchoing_codeModule]
    cases readModuleItems text <;> rfl

theorem declaresFirst_of_mem {code : String} {u : Tokens} (hu : moduleTokens? code = some u) {v : Value}
    (hv : v ∈ u.items) : DeclaresFirst v := by
  unfold moduleTokens? at hu
  split at hu
  · exact nomatch hu
  · exact only_moduleItems u (derives_of_readModuleItems hu) v hv

/-- The first name of a declaration list is bound to what is stored for it, if nothing else in the
module declares a variable of this name. -/
theorem binds_first {code : String} {u : Tokens} (hu : moduleTokens? code = some u)
    {before after : List Value} {name value : Value} {source : Tokens}
    (hitems : u.items = before ++ .node (.globalVar name value source) :: after)
    {d : DeclaredVariable} {rest : List DeclaredVariable} (hd : Describes (d :: rest) source)
    (honce : ∀ v ∈ before ++ after, v.declaresVariable d.key = false) (m : Machine) :
    (m.declaring (moduleOf u).declarations).globals.find? d.key = some d.stored ∧
      Semantics.ReadsAs (m.declaring (moduleOf u).declarations).globals.install d.name d.seen := by
  have hmem : .node (.globalVar name value source) ∈ u.items := by simp [hitems]
  obtain ⟨first, others, hfirst, rfl, rfl, hcallable⟩ := declaresFirst_of_mem hu hmem _ _ _ rfl
  obtain ⟨hname, hstored⟩ := hfirst.first_unique hd
  have hkey : d.key = first.key := congrArg Text.lower hname
  rw [hkey] at honce
  have hbound : (m.declaring (moduleOf u).declarations).globals.find? d.key = some d.stored := by
    rw [hkey, hstored]
    exact find?_declaring_of_once hitems honce m
  exact ⟨hbound, readsAs_seen hbound (hstored ▸ hcallable)⟩

/-- Loading a module binds the first name of every declaration list to what is stored for it, and
leaves all further names of the list as they were. -/
theorem loadModule_binds_first {code : String} {n : Node} (hread : readModule? code = some n)
    (e : Engine) :
    ∃ u e', moduleTokens? code = some u ∧ n = moduleOf u ∧ loadModule code e = .ok () e' ∧
      ∀ before name value source after,
        u.items = before ++ .node (.globalVar name value source) :: after →
        (∃ d rest, Describes (d :: rest) source) ∧
        ∀ d rest, Describes (d :: rest) source →
          ((∀ v ∈ before ++ after, v.declaresVariable d.key = false) →
            e'.machine.globals.find? d.key = some d.stored ∧
            Semantics.ReadsAs e'.machine.globals.install d.name d.seen) ∧
          ∀ d' ∈ rest, (∀ v ∈ u.items, v.declares d'.key = false) →
            e'.machine.globals.find? d'.key = e.machine.globals.find? d'.key ∧
            (e.machine.globals.install.find? d'.key = none → Library.entry? d'.key = none →
              Semantics.ReadsAs e'.machine.globals.install d'.name .empty) := by
  have hmodule := hread
  rw [readModule?_eq] at hmodule
  obtain ⟨u, hu, rfl⟩ := Option.map_eq_some_iff.mp hmodule
  obtain ⟨printed, hload⟩ := loadModule_of_readModule? hread e
  refine ⟨u, _, hu, rfl, hload, fun before name value source after hitems ↦ ?_⟩
  have hmem : .node (.globalVar name value source) ∈ u.items := by simp [hitems]
  obtain ⟨first, others, hfirst, -⟩ := declaresFirst_of_mem hu hmem _ _ _ rfl
  refine ⟨⟨first, others, hfirst⟩, fun d rest hd ↦
    ⟨fun honce ↦ binds_first hu hitems hd honce e.machine, fun d' _ hundeclared ↦ ?_⟩⟩
  have hkept := find?_declaring_of_undeclared hundeclared e.machine
  refine ⟨hkept, fun hnone hentry ↦ Semantics.readsAs_of_unbound ?_ hentry⟩
  exact (Globals.find?_install_congr hkept).trans hnone

/-- The module has one declaration list, with these variables. -/
def DeclaresList (u : Tokens) (ds : List DeclaredVariable) : Prop :=
  ∃ value source, u.items = [.node (.globalVar (.text "A") value source)] ∧ Describes ds source

/-- Two variables in one list. -/
def paired : String := "Public A = 6, B = 7\n"

def declaresPair : Tokens → Bool
  | .mk [.node (.globalVar (.text "A") _ (.mk [.tokens (.mk [.text "A", .text "=", .int 6] _),
      .tokens (.mk [.text "B", .text "=", .int 7] _)] _))] _ => true
  | _ => false

theorem declaresList_of_declaresPair {u : Tokens} (h : declaresPair u = true) :
    DeclaresList u [⟨"A", .none, some (.int 6)⟩, ⟨"B", .none, some (.int 7)⟩] := by
  unfold declaresPair at h
  split at h
  · exact ⟨_, _, rfl, .cons ⟨_, rfl⟩ (.cons ⟨_, rfl⟩ .nil)⟩
  · exact nomatch h

/-- The first of them is bound, and the second reads as empty. -/
theorem loadModule_binds_first_of_pair :
    ∃ e', loadModule paired {} = .ok () e' ∧
      Semantics.ReadsAs e'.machine.globals.install "A" (.int 6) ∧
      Semantics.ReadsAs e'.machine.globals.install "B" .empty := by
  have hpair : (moduleTokens? paired).any declaresPair = true := by decide +kernel
  have hconstant : (globalConstants.find? (Text.lower "A")).isNone = true := by decide +kernel
  have hglobal : (({} : Engine).machine.globals.install.find? (Text.lower "B")).isNone = true := by
    decide +kernel
  have hentry : (Library.entry? (Text.lower "B")).isNone = true := by decide +kernel
  have hdistinct : (Text.lower "A" == Text.lower "B") = false := by decide +kernel
  obtain ⟨u, hu, hdeclares⟩ := (Option.any_eq_true _ _).mp hpair
  obtain ⟨value, source, hitems, hds⟩ := declaresList_of_declaresPair hdeclares
  have hread : readModule? paired = some (moduleOf u) := by
    rw [readModule?_eq, hu]
    rfl
  obtain ⟨u', e', hu', -, hload, hlists⟩ := loadModule_binds_first hread {}
  obtain rfl : u = u' := Option.some.inj (hu.symm.trans hu')
  obtain ⟨hfirst, hrest⟩ := (hlists [] _ value source [] hitems).2 _ _ hds
  have ha := (hfirst nofun).2
  rw [DeclaredVariable.seen, DeclaredVariable.key, Option.isNone_iff_eq_none.mp hconstant] at ha
  rw [hitems] at hrest
  have hb := (hrest _ List.mem_cons_self (List.forall_mem_singleton.mpr hdistinct)).2
    (Option.isNone_iff_eq_none.mp hglobal) (Option.isNone_iff_eq_none.mp hentry)
  exact ⟨e', hload, ha, hb⟩

/-- A constant with a type. -/
def typed : String := "Const A As Integer = 5\n"

def declaresTyped : Tokens → Bool
  | .mk [.node (.globalVar (.text "A") _ (.mk [.tokens (.mk [.text "A", .text "Integer", .text "=",
      .int 5] _)] _))] _ => true
  | _ => false

theorem declaresList_of_declaresTyped {u : Tokens} (h : declaresTyped u = true) :
    DeclaresList u [⟨"A", .type (.text "Integer"), some (.int 5)⟩] := by
  unfold declaresTyped at h
  split at h
  · exact ⟨_, _, rfl, .cons ⟨_, rfl⟩ .nil⟩
  · exact nomatch h

/-- It reads as the sign in front of its value. -/
theorem typed_constant_reads_sign : ¬ ∀ (code : String) (u : Tokens) (e : Engine) (name value : Value)
    (source : Tokens) (ds : List DeclaredVariable), moduleTokens? code = some u →
    loadModule code {} = .ok () e → .node (.globalVar name value source) ∈ u.items →
    Describes ds source → ∀ d ∈ ds, ∀ k : Int, d.initial = some (.int k) →
      Semantics.ReadsAs e.machine.globals.install d.name (.int k) := by
  intro h
  have htyped : (moduleTokens? typed).any declaresTyped = true := by decide +kernel
  have hconstant : (globalConstants.find? (Text.lower "A")).isNone = true := by decide +kernel
  have hfive : Decimal.isWritable 5 = true := by decide +kernel
  obtain ⟨u, hu, hdeclares⟩ := (Option.any_eq_true _ _).mp htyped
  obtain ⟨value, source, hitems, hds⟩ := declaresList_of_declaresTyped hdeclares
  have hread : readModule? typed = some (moduleOf u) := by
    rw [readModule?_eq, hu]
    rfl
  obtain ⟨printed, hload⟩ := loadModule_of_readModule? hread {}
  have halone : u.items = [] ++ .node (.globalVar (.text "A") value source) :: [] := hitems
  have hsign := (binds_first hu halone hds nofun {}).2
  rw [DeclaredVariable.seen, DeclaredVariable.key, Option.isNone_iff_eq_none.mp hconstant] at hsign
  have hitem : .node (.globalVar (.text "A") value source) ∈ u.items := by simp [hitems]
  have hnumber := h typed u _ _ value source _ hu hload hitem hds _ List.mem_cons_self 5 rfl
  have hm := Machine.sees_newFrame {} (Machine.declaring {} (moduleOf u).declarations).globals.install
    (Text.lower "A")
  exact nomatch hsign.unique hnumber hm rfl (Semantics.isWritable_resolve_int {} hfive)

end Engine

end VbaTrace
