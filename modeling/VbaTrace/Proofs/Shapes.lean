import VbaTrace.Grammar.Build
import VbaTrace.Proofs.Roles

/-!
The shapes of what the grammar yields. A `Shape` tells in which role the items of a match may stand,
and under which labels statements may be found; `HasShape` says that tokens keep to it. The laws
here say how shapes go along with joining tokens, with labels and with grouping.
-/

set_option autoImplicit false

namespace VbaTrace

/-- A node that declares global names gives them operands. -/
def Node.declares : Node → Bool
  | .globalVar _ value _ => value.fits .operand
  | .codeModule _ _ subs functions externals globalVars =>
    [subs, functions, externals, globalVars].all fun bs ↦ bs.all fun b ↦ b.value.fits .operand
  | _ => true

mutual

/-- The value can stand in a role with all that it holds, also under labels. -/
def Value.suits : Value → Role → Bool
  | .list vs, role => suitAll vs role
  | .tokens t, role => t.suits role
  | .node n, role => n.fits role && n.declares
  | _, _ => true

def suitAll : List Value → Role → Bool
  | [], _ => true
  | v :: vs, role => v.suits role && suitAll vs role

def Tokens.suits : Tokens → Role → Bool
  | .mk items labels, role => suitAll items role && labelsSuit labels role

def Label.suits : Label → Role → Bool
  | .mk _ values, role => suitAll values role

def labelsSuit : List Label → Role → Bool
  | [], _ => true
  | l :: ls, role => l.suits role && labelsSuit ls role

end

section

variable {role other : Role}

theorem suitAll_iff (vs : List Value) :
    suitAll vs role = true ↔ ∀ v ∈ vs, v.suits role = true := by
  induction vs with
  | nil => simp [suitAll]
  | cons v vs ih => simp [suitAll, ih]

theorem labelsSuit_iff (ls : List Label) :
    labelsSuit ls role = true ↔ ∀ l ∈ ls, ∀ v ∈ l.values, v.suits role = true := by
  induction ls with
  | nil => simp [labelsSuit]
  | cons l ls ih =>
    obtain ⟨name, values⟩ := l
    simp [labelsSuit, Label.suits, Label.values, suitAll_iff, ih]

theorem suits_tokens_iff (t : Tokens) : (Value.tokens t).suits role = true ↔
    (∀ v ∈ t.items, v.suits role = true) ∧ ∀ l ∈ t.labels, ∀ v ∈ l.values, v.suits role = true := by
  obtain ⟨items, labels⟩ := t
  simp [Value.suits, Tokens.suits, suitAll_iff, labelsSuit_iff, Tokens.items, Tokens.labels]

mutual

theorem Value.fits_of_suits : ∀ {v : Value}, v.suits role = true → v.fits role = true
  | .list _, h => fitAll_of_suits h
  | .tokens (.mk _ _), h => by
    rw [Value.suits, Tokens.suits, Bool.and_eq_true] at h
    exact fitAll_of_suits h.1
  | .node _, h => (Bool.and_eq_true_iff.mp h).1
  | .null, _ | .bool _, _ | .int _, _ | .float _, _ | .text _, _ | .array _, _ | .routine _, _ =>
    rfl

theorem fitAll_of_suits : ∀ {vs : List Value}, suitAll vs role = true → fitAll vs role = true
  | [], _ => rfl
  | v :: vs, h => by
    rw [suitAll, Bool.and_eq_true] at h
    rw [fitAll, Bool.and_eq_true]
    exact ⟨Value.fits_of_suits h.1, fitAll_of_suits h.2⟩

end

mutual

theorem Value.suits_mono (hrole : role.within other = true) :
    ∀ {v : Value}, v.suits role = true → v.suits other = true
  | .list _, h => suitAll_mono hrole h
  | .tokens (.mk _ _), h => by
    rw [Value.suits, Tokens.suits, Bool.and_eq_true] at h ⊢
    exact ⟨suitAll_mono hrole h.1, labelsSuit_mono hrole h.2⟩
  | .node n, h => by
    rw [Value.suits, Bool.and_eq_true] at h ⊢
    exact ⟨n.fits_mono hrole h.1, h.2⟩
  | .null, _ | .bool _, _ | .int _, _ | .float _, _ | .text _, _ | .array _, _ | .routine _, _ =>
    rfl

theorem suitAll_mono (hrole : role.within other = true) :
    ∀ {vs : List Value}, suitAll vs role = true → suitAll vs other = true
  | [], _ => rfl
  | v :: vs, h => by
    rw [suitAll, Bool.and_eq_true] at h ⊢
    exact ⟨Value.suits_mono hrole h.1, suitAll_mono hrole h.2⟩

theorem labelsSuit_mono (hrole : role.within other = true) :
    ∀ {ls : List Label}, labelsSuit ls role = true → labelsSuit ls other = true
  | [], _ => rfl
  | .mk _ _ :: ls, h => by
    rw [labelsSuit, Label.suits, Bool.and_eq_true] at h ⊢
    exact ⟨suitAll_mono hrole h.1, labelsSuit_mono hrole h.2⟩

end

end

namespace Grammar

/-- The role of the items of a match, and the labels under which there may be statements. -/
structure Shape where
  items : Role
  statements : List String

namespace Shape

/-- Operands only. -/
def operands : Shape := ⟨.operand, []⟩

/-- The role of what stands under a label. -/
def roleOf (s : Shape) (name : String) : Role :=
  if s.statements.contains name then .statement else .operand

/-- What has one of two shapes, or parts of both. -/
def join (s t : Shape) : Shape :=
  ⟨if s.items == .operand then t.items else .statement, s.statements ++ t.statements⟩

/-- The role of a match taken as one token list. -/
def whole (s : Shape) : Role :=
  if s.statements.isEmpty then s.items else .statement

/-- What has the first shape has the second. -/
def within (s t : Shape) : Bool :=
  s.items.within t.items && s.statements.all t.statements.contains

end Shape

/-- The tokens have a shape. -/
structure HasShape (s : Shape) (t : Tokens) : Prop where
  items : ∀ v ∈ t.items, v.suits s.items = true
  labels : ∀ l ∈ t.labels, ∀ v ∈ l.values, v.suits (s.roleOf l.name) = true

section

variable {s s' : Shape} {t t' : Tokens} {role : Role}

theorem suits_statement {v : Value} (hv : v.suits role = true) : v.suits .statement = true :=
  Value.suits_mono (by cases role <;> rfl) hv

theorem Shape.roleOf_within {name : String}
    (h : ∀ label ∈ s.statements, label ∈ s'.statements) :
    (s.roleOf name).within (s'.roleOf name) = true := by
  unfold Shape.roleOf
  by_cases hname : name ∈ s.statements
  · simp [hname, h name hname, Role.within]
  · simp [hname, Role.within]

theorem HasShape.mono (ht : HasShape s t) (hitems : s.items.within s'.items = true)
    (hlabels : ∀ label ∈ s.statements, label ∈ s'.statements) : HasShape s' t :=
  ⟨fun v hv ↦ Value.suits_mono hitems (ht.items v hv),
    fun l hl v hv ↦ Value.suits_mono (Shape.roleOf_within hlabels) (ht.labels l hl v hv)⟩

theorem HasShape.of_within (ht : HasShape s t) (h : s.within s' = true) : HasShape s' t := by
  simp only [Shape.within, Bool.and_eq_true, List.all_eq_true, List.contains_iff_mem] at h
  exact ht.mono h.1 h.2

theorem HasShape.join_left (ht : HasShape s t) (s' : Shape) : HasShape (s.join s') t := by
  refine ht.mono ?_ fun _ h ↦ List.mem_append_left _ h
  unfold Shape.join
  cases s.items <;> simp [Role.within]

theorem HasShape.join_right (ht : HasShape s t) (s' : Shape) : HasShape (s'.join s) t := by
  refine ht.mono ?_ fun _ h ↦ List.mem_append_right _ h
  unfold Shape.join
  cases s'.items <;> simp [Role.within]

theorem hasShape_ofList {vs : List Value} (h : ∀ v ∈ vs, v.suits role = true)
    (labels : List String) : HasShape ⟨role, labels⟩ (.ofList vs) :=
  ⟨h, fun _ hl ↦ (nomatch hl)⟩

theorem hasShape_one {v : Value} (h : v.suits role = true) (labels : List String) :
    HasShape ⟨role, labels⟩ (.one v) :=
  hasShape_ofList (List.forall_mem_singleton.mpr h) labels

theorem hasShape_empty (s : Shape) : HasShape s .empty :=
  ⟨fun _ hv ↦ (nomatch hv), fun _ hl ↦ (nomatch hl)⟩

theorem mem_addLabel {name : String} {values : List Value} {ls : List Label} {l : Label}
    (hl : l ∈ Tokens.addLabel name values ls) {v : Value} (hv : v ∈ l.values) :
    (l.name = name ∧ v ∈ values) ∨ ∃ l' ∈ ls, l'.name = l.name ∧ v ∈ l'.values := by
  induction ls with
  | nil =>
    rw [Tokens.addLabel, List.mem_singleton] at hl
    subst hl
    exact .inl ⟨rfl, hv⟩
  | cons k ks ih =>
    rw [Tokens.addLabel] at hl
    split at hl
    · next heq =>
      rw [List.mem_cons] at hl
      rcases hl with rfl | hl
      · rcases List.mem_append.mp hv with hv | hv
        · exact .inr ⟨k, List.mem_cons_self, eq_of_beq heq, hv⟩
        · exact .inl ⟨rfl, hv⟩
      · exact .inr ⟨l, List.mem_cons_of_mem k hl, rfl, hv⟩
    · rw [List.mem_cons] at hl
      rcases hl with rfl | hl
      · exact .inr ⟨l, List.mem_cons_self, rfl, hv⟩
      · rcases ih hl with h | ⟨l', hl', h⟩
        · exact .inl h
        · exact .inr ⟨l', List.mem_cons_of_mem k hl', h⟩

theorem HasShape.addLabel (ht : HasShape s t) {name : String} {values : List Value}
    (hvalues : ∀ v ∈ values, v.suits (s.roleOf name) = true) :
    HasShape s (.mk t.items (Tokens.addLabel name values t.labels)) := by
  refine ⟨ht.items, fun l hl v hv ↦ ?_⟩
  rcases mem_addLabel hl hv with ⟨hname, hv⟩ | ⟨l', hl', hname, hv⟩
  · exact hname ▸ hvalues v hv
  · exact hname ▸ ht.labels l' hl' v hv

theorem HasShape.addLabels {ls : List Label}
    (hls : ∀ l ∈ ls, ∀ v ∈ l.values, v.suits (s.roleOf l.name) = true) (ht : HasShape s t) :
    HasShape s
      (.mk t.items (ls.foldl (fun ks l ↦ Tokens.addLabel l.name l.values ks) t.labels)) := by
  induction ls generalizing t with
  | nil => exact ⟨ht.items, ht.labels⟩
  | cons l ls ih =>
    obtain ⟨hl, hls⟩ := List.forall_mem_cons.mp hls
    exact ih hls (ht.addLabel hl)

theorem HasShape.append (ht : HasShape s t) (ht' : HasShape s t') : HasShape s (t.append t') :=
  ⟨List.forall_mem_append.mpr ⟨ht.items, ht'.items⟩, (ht.addLabels ht'.labels).labels⟩

theorem HasShape.find? (ht : HasShape s t) {name : String} {v : Value}
    (h : t.find? name = some v) : v.suits (s.roleOf name) = true := by
  obtain ⟨l, hfind, hlast⟩ := Option.bind_eq_some_iff.mp h
  have hname : l.name = name := by simpa using List.find?_some hfind
  exact hname ▸ ht.labels l (List.mem_of_find?_eq_some hfind) v (List.mem_of_getLast? hlast)

theorem HasShape.get (ht : HasShape s t) (name : String) :
    (t.get name).suits (s.roleOf name) = true := by
  unfold Tokens.get
  cases hfind : t.find? name with
  | none => rfl
  | some v => exact ht.find? hfind

theorem HasShape.get_operand (ht : HasShape s t) {name : String} (hname : name ∉ s.statements) :
    (t.get name).suits .operand = true := by
  have hget := ht.get name
  rwa [Shape.roleOf, if_neg (by simpa using hname)] at hget

/-- A token list of operands has operands everywhere. -/
theorem hasShape_tokensOf {v : Value} (hv : v.suits .operand = true) :
    HasShape .operands (tokensOf v) := by
  cases v with
  | tokens t =>
    obtain ⟨hitems, hlabels⟩ := (suits_tokens_iff t).mp hv
    exact ⟨hitems, hlabels⟩
  | _ => exact hasShape_empty _

theorem suits_items_tokensOf {v : Value} (hv : v.suits role = true) :
    ∀ w ∈ (tokensOf v).items, w.suits role = true := by
  cases v with
  | tokens t => exact ((suits_tokens_iff t).mp hv).1
  | _ => exact fun _ hw ↦ nomatch hw

theorem HasShape.whole (ht : HasShape s t) : (Value.tokens t).suits s.whole = true := by
  rw [suits_tokens_iff]
  unfold Shape.whole
  split
  · next hempty =>
    refine ⟨ht.items, fun l hl v hv ↦ ?_⟩
    have hv' := ht.labels l hl v hv
    rw [Shape.roleOf, List.isEmpty_iff.mp hempty] at hv'
    exact Value.suits_mono (by simp [Role.within]) hv'
  · exact ⟨fun v hv ↦ suits_statement (ht.items v hv),
      fun l hl v hv ↦ suits_statement (ht.labels l hl v hv)⟩

end

end Grammar

end VbaTrace
