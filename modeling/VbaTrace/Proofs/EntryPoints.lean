import VbaTrace.Engine.Basic
import VbaTrace.Proofs.Evaluation

/-!
The entry points that a trace records. Nothing that is evaluated records an entry, and the global
names stay those that the trace found. So a step of the trace adds the entry of its own name, if there
is a procedure for it (`Engine.entries_enter`), and a whole trace leaves exactly the entries of the
names that were bound when it began, in their order (`Engine.entries_enterAll`).
-/

set_option autoImplicit false

namespace VbaTrace

namespace Eval

variable {α β : Type} {x : Eval α} {f : α → Eval β} {m m' : Machine}

theorem bind_eq_ok {b : β} (h : (x >>= f) m = .ok b m') :
    ∃ a m₁, x m = .ok a m₁ ∧ f a m₁ = .ok b m' := by
  cases hx : x m with
  | ok a m₁ => exact ⟨a, m₁, rfl, bind_of_ok hx f ▸ h⟩
  | error e m₁ =>
    rw [bind_of_error hx] at h
    exact nomatch h

end Eval

/-- What is evaluated adds no entry to those of the trace, and takes none away. -/
theorem Semantics.entries_evaluate (rounds depth : Nat) (v : Value) (args : Arguments)
    (m : Machine) : ((Semantics.evaluate rounds depth v args).final m).entries = m.entries :=
  (changes_evaluate rounds depth v args m).entries_eq

namespace Globals

/-- Every constant is bound. -/
def HasConstants (g : Globals) : Prop :=
  constantNames ⊆ g.names

theorem hasConstants_install (g : Globals) : g.install.HasConstants := by
  rw [HasConstants, names_install]
  exact Set.subset_union_right

/-- Where the constants are bound already, the bound names stay the same. -/
theorem Stable.names_eq {g g' : Globals} (h : g.Stable g') (hg : g.HasConstants) :
    g'.names = g.names := by
  rcases h.names with heq | heq
  · exact heq
  · rw [heq]
    exact Set.union_eq_self_of_subset_right hg

theorem has_congr {g g' : Globals} (h : g'.names = g.names) : g'.has = g.has := by
  ext key
  have hmem : key ∈ g'.names ↔ key ∈ g.names := by rw [h]
  exact Bool.eq_iff_iff.mpr hmem

end Globals

namespace Engine

/-- What a trace records of an entry point. -/
def entryOf (key : String) : Action :=
  ⟨.text "Found Entry Point", .text key, .empty⟩

/-- The names that are bound, in lower case. -/
def boundEntries (g : Globals) (names : List String) : List String :=
  (names.map Text.lower).filter g.has

theorem enter_of_some {name : String} {m : Machine} {v : Value}
    (h : m.globals.find? (Text.lower name) = some v) :
    enter name m = (Semantics.run v none >>= fun _ ↦ pure ())
      { m with actions := m.actions.push (entryOf (Text.lower name)) } := by
  refine (Eval.bind_of_ok (rfl : (get : Eval Machine) m = .ok m m) _).trans ?_
  simp only [h]
  exact Eval.bind_of_ok rfl _

theorem enter_of_none {name : String} {m : Machine}
    (h : m.globals.find? (Text.lower name) = none) : enter name m = .ok () m := by
  refine (Eval.bind_of_ok (rfl : (get : Eval Machine) m = .ok m m) _).trans ?_
  simp only [h]
  rfl

/-- One step of a trace: the entry of a bound name comes last, and all others are kept. -/
theorem entries_enter {name : String} {m m' : Machine} (h : enter name m = .ok () m') :
    m'.entries = m.entries ++ (boundEntries m.globals [name]).map entryOf ∧
      m.globals.Stable m'.globals := by
  cases hfound : m.globals.find? (Text.lower name) with
  | none =>
    rw [enter_of_none hfound] at h
    cases h
    exact ⟨by simp [boundEntries, Globals.has, hfound], .refl _⟩
  | some v =>
    rw [enter_of_some hfound] at h
    obtain ⟨w, m₁, hrun, hdone⟩ := Eval.bind_eq_ok h
    cases hdone
    have hchanges := Semantics.changes_evaluate Semantics.roundLimit Semantics.depthLimit v none
      { m with actions := m.actions.push (entryOf (Text.lower name)) }
    have hfinal : (Semantics.evaluate Semantics.roundLimit Semantics.depthLimit v none).final
        { m with actions := m.actions.push (entryOf (Text.lower name)) } = m' := by
      unfold Eval.final
      rw [← Semantics.run, hrun]
    rw [hfinal] at hchanges
    refine ⟨?_, hchanges.globals_stable⟩
    have hentry : (entryOf (Text.lower name)).isEntry = true := rfl
    rw [hchanges.entries_eq]
    simp [Machine.entries, boundEntries, Globals.has, hfound, hentry]

/-- All steps of a trace. The names are looked for while the program runs, but those that are bound
stay the same. -/
theorem entries_enterAll {names : List String} {m m' : Machine} (hm : m.globals.HasConstants)
    (h : names.forM enter m = .ok () m') :
    m'.entries = m.entries ++ (boundEntries m.globals names).map entryOf := by
  induction names generalizing m with
  | nil =>
    cases h
    simp [boundEntries]
  | cons name names ih =>
    obtain ⟨_, m₁, hfirst, hrest⟩ := Eval.bind_eq_ok h
    obtain ⟨hentries, hstable⟩ := entries_enter hfirst
    have hnames := hstable.names_eq hm
    have hconstants : m₁.globals.HasConstants := by
      rw [Globals.HasConstants, hnames]
      exact hm
    have hsplit : boundEntries m.globals (name :: names) =
        boundEntries m.globals [name] ++ boundEntries m.globals names := by
      simp [boundEntries, List.filter_cons]
      split <;> rfl
    have hsame : boundEntries m₁.globals names = boundEntries m.globals names := by
      rw [boundEntries, Globals.has_congr hnames, boundEntries]
    rw [ih hconstants hrest, hentries, hsame, hsplit, List.map_append, List.append_assoc]

/-- A trace that ends well has recorded as its entries exactly those of the engine's entry points, in
lower case and in order, that were bound when it began; and nothing that is evaluated changes the
entries. -/
theorem trace_records_bound_entries {e e' : Engine} (h : trace e = .ok () e') :
    e'.machine.entries = (boundEntries e.machine.globals.install e.entryPoints).map entryOf ∧
      ∀ (rounds depth : Nat) (v : Value) (args : Arguments) (m : Machine),
        ((Semantics.evaluate rounds depth v args).final m).entries = m.entries := by
  refine ⟨?_, Semantics.entries_evaluate⟩
  change evaluation (inNewFrame (do clearActions; e.entryPoints.forM enter)) e = .ok () e' at h
  unfold evaluation inNewFrame at h
  cases hrun : (do clearActions; e.entryPoints.forM enter : Eval Unit)
      { e.machine with frame := {}, globals := e.machine.globals.install } with
  | error f m =>
    rw [hrun] at h
    exact nomatch h
  | ok a m =>
    rw [hrun] at h
    cases h
    obtain ⟨_, m₁, hclear, hsteps⟩ := Eval.bind_eq_ok hrun
    cases hclear
    have hentries := entries_enterAll (Globals.hasConstants_install e.machine.globals) hsteps
    exact hentries

/-- An engine whose first entry point binds, as a variable, the name of the second. -/
def shadowing : Engine :=
  { machine := { globals := { others := ⟨
      [("autoopen", .node (.sub (.text "AutoOpen") .null
          (.list [.node (.assign (.text "missing") .null (.int 1))]) .null)),
        ("document_open", .node (.sub (.text "Document_Open") .null (.list []) .null))]⟩ } }
    entryPoints := ["AutoOpen", "Missing", "Document_Open"] }

/-- Whether a command ends without a failure. -/
def succeeds {α : Type} (c : Command α) (e : Engine) : Bool :=
  match c e with
  | .ok _ _ => true
  | .error _ _ => false

theorem exists_of_succeeds {c : Command Unit} {e : Engine} (h : succeeds c e = true) :
    ∃ e', c e = .ok () e' := by
  unfold succeeds at h
  split at h
  · exact ⟨_, by assumption⟩
  · exact nomatch h

theorem trace_shadowing_records :
    ∃ e', trace shadowing = .ok () e' ∧
      e'.machine.entries = [entryOf "autoopen", entryOf "document_open"] := by
  have hends : succeeds trace shadowing = true := by decide +kernel
  obtain ⟨e', h⟩ := exists_of_succeeds hends
  have hbound : boundEntries shadowing.machine.globals.install shadowing.entryPoints =
      ["autoopen", "document_open"] := by decide +kernel
  have hentries := (trace_records_bound_entries h).1
  rw [hbound] at hentries
  exact ⟨e', h, hentries⟩

end Engine

end VbaTrace
