import VbaTrace.Proofs.Outcomes

/-!
What a name stands for. `Machine.resolve?` is the value that a name is found to have: inside `With`
blocks that of the name behind theirs, and else its own. `fetch` gives this value, or fails because
there is none, and changes nothing (`fetch_of_some`, `fetch_of_none`).

A procedure stays bound to its name through whatever keeps the local variables of the frame and the
procedures among the globals (`resolve?_procedure`).
-/

set_option autoImplicit false

namespace VbaTrace

/-- What a name stands for where the machine is, inside or outside of `With` blocks. -/
def Machine.resolve? (m : Machine) (name : String) : Option Value :=
  (m.lookup (m.frame.withName ++ name)).or (m.lookup name)

theorem lookup_eq (m : Machine) (name : String) :
    m.lookup name = (m.frame.locals.find? (Text.lower name)).or
      ((m.globals.find? (Text.lower name)).or (Library.entry? (Text.lower name))) := by
  unfold Machine.lookup
  dsimp only
  cases m.frame.locals.find? (Text.lower name) with
  | some v => rfl
  | none => cases m.globals.find? (Text.lower name) <;> rfl

theorem displayed_text (s : String) (m : Machine) : displayed (.text s) m = .ok s m :=
  rfl

section

variable {m m' : Machine} {name : String} {v : Value}

theorem fetch_of_some (h : m.resolve? name = some v) : fetch (.text name) m = .ok v m := by
  unfold Machine.resolve? at h
  unfold fetch
  rw [Eval.bind_of_ok (show (get : Eval Machine) m = .ok m m from rfl),
    Eval.bind_of_ok (displayed_text name m)]
  cases hblock : m.lookup (m.frame.withName ++ name) with
  | some w =>
    rw [hblock, Option.some_or] at h
    rw [h]
    rfl
  | none =>
    rw [hblock, Option.none_or] at h
    dsimp only
    rw [h]
    rfl

theorem fetch_of_none (h : m.resolve? name = none) :
    fetch (.text name) m = .error (.unknownName (Text.quoted (Text.lower name))) m := by
  obtain ⟨hblock, hbare⟩ := Option.or_eq_none_iff.mp h
  unfold fetch
  rw [Eval.bind_of_ok (show (get : Eval Machine) m = .ok m m from rfl),
    Eval.bind_of_ok (displayed_text name m), hblock]
  dsimp only
  rw [hbare]
  rfl

theorem final_fetch (name : String) (m : Machine) : (fetch (.text name)).final m = m := by
  cases h : m.resolve? name with
  | none => exact Eval.final_of_error (fetch_of_none h)
  | some v => exact Eval.final_of_ok (fetch_of_some h)

/-! A procedure stays bound to its name -/

/-- A procedure of the program. -/
def Value.isSubOrFunction : Value → Bool
  | .node (.sub ..) | .node (.function ..) => true
  | _ => false

theorem Value.isProcedure_of_isSubOrFunction {p : Value} (h : p.isSubOrFunction = true) :
    p.isProcedure = true := by
  cases p with
  | node n => cases n <;> first | rfl | exact Bool.noConfusion h
  | _ => exact Bool.noConfusion h

theorem entry?_ne_procedure {p : Value} (hp : p.isSubOrFunction = true) (key : String) :
    Library.entry? key ≠ some p := by
  intro h
  unfold Library.entry? at h
  split at h
  · rw [← Option.some.inj h] at hp
    exact Bool.noConfusion hp
  · have hconstants : ∀ e ∈ Library.constants.entries, e.2.isSubOrFunction = false := by decide
    rw [hconstants _ (Table.mem_of_find? h)] at hp
    exact Bool.noConfusion hp

variable {p : Value}

theorem lookup_procedure (hlocals : m'.frame.locals = m.frame.locals)
    (hglobals : m.globals.Stable m'.globals) (hp : p.isSubOrFunction = true)
    (hname : isConstantName (Text.lower name) = false) (h : m.lookup name = some p) :
    m'.lookup name = some p := by
  rw [lookup_eq] at h ⊢
  rw [hlocals]
  rcases Option.or_eq_some_iff.mp h with hlocal | ⟨hlocal, hrest⟩
  · rw [hlocal, Option.some_or]
  · rcases Option.or_eq_some_iff.mp hrest with hglobal | ⟨-, hentry⟩
    · have hkept := hglobals.procedures _ _ hname hglobal (Value.isProcedure_of_isSubOrFunction hp)
      rw [hlocal, hkept, Option.none_or, Option.some_or]
    · exact absurd hentry (entry?_ne_procedure hp _)

theorem Globals.find?_eq_none {g g' : Globals} {key : String} (hg : g.Stable g')
    (hkey : isConstantName key = false) (h : g.find? key = none) : g'.find? key = none := by
  have hfree : key ∉ g.names := by simp [Globals.names, Globals.has, h]
  have hfree' : key ∉ g'.names := by
    rcases hg.names with heq | heq
    · rwa [heq]
    · rw [heq]
      simp [hfree, Globals.constantNames, hkey]
  simpa [Globals.names, Globals.has] using hfree'

theorem lookup_eq_none (hlocals : m'.frame.locals = m.frame.locals)
    (hglobals : m.globals.Stable m'.globals) (hname : isConstantName (Text.lower name) = false)
    (h : m.lookup name = none) : m'.lookup name = none := by
  rw [lookup_eq] at h ⊢
  rw [hlocals]
  obtain ⟨hlocal, hrest⟩ := Option.or_eq_none_iff.mp h
  obtain ⟨hglobal, hentry⟩ := Option.or_eq_none_iff.mp hrest
  rw [hlocal, Globals.find?_eq_none hglobals hname hglobal, hentry]
  rfl

/-- Neither the name nor the one behind that of the enclosing `With` blocks is that of a constant,
which every new frame sets anew. -/
structure Machine.Unreserved (m : Machine) (name : String) : Prop where
  bare : isConstantName (Text.lower name) = false
  inBlock : isConstantName (Text.lower (m.frame.withName ++ name)) = false

theorem resolve?_procedure (hframe : m'.frame = m.frame) (hglobals : m.globals.Stable m'.globals)
    (hp : p.isSubOrFunction = true) (hname : m.Unreserved name) (h : m.resolve? name = some p) :
    m'.resolve? name = some p := by
  have hlocals : m'.frame.locals = m.frame.locals := by rw [hframe]
  unfold Machine.resolve? at h ⊢
  rw [hframe]
  cases hblock : m.lookup (m.frame.withName ++ name) with
  | some w =>
    rw [hblock, Option.some_or] at h
    cases Option.some.inj h
    rw [lookup_procedure hlocals hglobals hp hname.inBlock hblock, Option.some_or]
  | none =>
    rw [hblock, Option.none_or] at h
    rw [lookup_eq_none hlocals hglobals hname.inBlock hblock, Option.none_or]
    exact lookup_procedure hlocals hglobals hp hname.bare h

end

end VbaTrace
