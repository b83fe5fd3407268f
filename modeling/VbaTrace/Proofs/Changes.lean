import Mathlib.Data.Set.Basic
import VbaTrace.Proofs.SharedLists

/-!
What evaluation can do to a machine. `Changes strict role m m'` is the closure of the single
changes: an action other than an entry of the trace is recorded, the file tables change, a dropped
file is kept, a procedure runs in a frame of its own, a list is shared or lengthened, a name is
assigned, and the flags that control the flow of statements are set. Operands make none of the last
four, and assignments do not make the last.

Every invariant of whole evaluations is an induction over this relation: the names and procedures
among the globals stay (`Changes.globals_stable`), actions are only added
(`Changes.actions_extended`), and the entries of the trace among them stay the same
(`Changes.entries_eq`), an operand leaves its frame alone (`Changes.frame_eq`), an assignment leaves
the flags alone (`Changes.control_eq`), lists only grow by zeros (`Changes.heap_grows`), and variables
go on holding operands only (`Changes.admitted`).
-/

set_option autoImplicit false

namespace VbaTrace

/-- The heading under which a trace records its entry points. -/
def Value.isEntryHeading : Value → Bool
  | text s => s == "Found Entry Point"
  | _ => false

/-- The action is an entry of the trace itself. -/
def Action.isEntry (a : Action) : Bool := a.what.isEntryHeading

/-- The entry points that were recorded, in order. -/
def Machine.entries (m : Machine) : List Action := m.actions.toList.filter Action.isEntry

inductive Changes (strict : Prop) : Role → Machine → Machine → Prop
  | refl (role : Role) (m : Machine) : Changes strict role m m
  | trans {role : Role} {first middle last : Machine} :
    Changes strict role first middle → Changes strict role middle last →
      Changes strict role first last
  | report (role : Role) (m : Machine) (a : Action) :
    a.isEntry = false → Changes strict role m { m with actions := m.actions.push a }
  | files (role : Role) (m : Machine) (opened : Table OpenFile) (closed : List ClosedFile) :
    Changes strict role m
      { m with frame := { m.frame with openFiles := opened, closedFiles := closed } }
  | drop (role : Role) (m : Machine) (dropped : Table (List UInt8)) :
    Changes strict role m { m with dropped := dropped }
  /-- The activation of a procedure: its frame is new, and the caller's frame returns. -/
  | activation (role : Role) (m m' : Machine) :
    Changes strict .statement { m with frame := {}, globals := m.globals.install } m' →
      Changes strict role m { m' with frame := m.frame }
  | share (role : Role) (m : Machine) (v : Value) :
    (strict → role.assigns = true) → Admits strict .operand v →
      Changes strict role m { m with heap := (Heap.box v m.heap).2 }
  | lengthen (role : Role) (m : Machine) (cell n : Nat) :
    (strict → role.assigns = true) →
      Changes strict role m
        { m with heap := m.heap.write cell (m.heap.read cell ++ List.replicate n (.int 0)) }
  | assign (role : Role) (m : Machine) (name : String) (v : Value) (type : Option Value) :
    (strict → role.assigns = true) → Admits strict .operand v →
      Changes strict role m (m.assign name v type)
  | control (role : Role) (m : Machine) (loops : List Bool) (withName : String) (exited : Bool) :
    (strict → role = .statement) →
      Changes strict role m
        { m with frame := { m.frame with loops := loops, withName := withName, exited := exited } }

variable {strict : Prop} {role : Role} {m m' : Machine}

/-- A role may do what one that it includes does, and where roles are not kept apart every role may
do what a statement does. -/
theorem Changes.of_role {other : Role} (h : Changes strict role m m')
    (hassigns : strict → role.assigns = true → other.assigns = true)
    (hcontrols : strict → role = .statement → other = .statement) : Changes strict other m m' := by
  induction h with
  | refl _ m => exact .refl other m
  | trans _ _ ihfirst ihlast =>
    exact .trans (ihfirst hassigns hcontrols) (ihlast hassigns hcontrols)
  | report _ m a ha => exact .report other m a ha
  | files _ m opened closed => exact .files other m opened closed
  | drop _ m dropped => exact .drop other m dropped
  | activation _ m m' h => exact .activation other m m' h
  | share _ m v hs hv => exact .share other m v (fun h ↦ hassigns h (hs h)) hv
  | lengthen _ m cell n hs => exact .lengthen other m cell n fun h ↦ hassigns h (hs h)
  | assign _ m name v type hs hv =>
    exact .assign other m name v type (fun h ↦ hassigns h (hs h)) hv
  | control _ m loops withName exited hs =>
    exact .control other m loops withName exited fun h ↦ hcontrols h (hs h)

/-! Global names -/

namespace Table

variable {α : Type}

theorem mem_of_findIn {key : String} {v : α} {es : List (String × α)}
    (h : findIn key es = some v) : (key, v) ∈ es := by
  induction es with
  | nil => exact nomatch h
  | cons e es ih =>
    rw [findIn] at h
    split_ifs at h with heq
    · rw [← eq_of_beq heq, ← Option.some.inj h]
      exact List.mem_cons_self
    · exact List.mem_cons_of_mem e (ih h)

theorem mem_of_find? {t : Table α} {key : String} {v : α} (h : t.find? key = some v) :
    (key, v) ∈ t.entries :=
  mem_of_findIn h

end Table

namespace Globals

theorem find?_put (g : Globals) (key other : String) (v : Value) :
    (g.put key v).find? other = if key == other then some v else g.find? other := by
  unfold put find?
  by_cases heq : key = other
  · subst other
    by_cases hkey : isConstantName key = true <;> simp [hkey]
  · by_cases hkey : isConstantName key = true <;>
      by_cases hother : isConstantName other = true <;> simp [hkey, hother, heq]

theorem find?_install (g : Globals) (key : String) :
    g.install.find? key =
      if isConstantName key then globalConstants.find? key else g.others.find? key :=
  rfl

/-- The names that are bound. -/
def names (g : Globals) : Set String :=
  {key | g.has key = true}

/-- The names of the constants that every frame finds. -/
def constantNames : Set String :=
  {key | isConstantName key = true}

theorem names_put {g : Globals} {key : String} (h : key ∈ g.names) (v : Value) :
    (g.put key v).names = g.names := by
  ext other
  simp only [names, Set.mem_ofPred_eq, has, find?_put] at h ⊢
  split_ifs with heq
  · rw [← eq_of_beq heq]
    simp [h]
  · rfl

theorem names_install (g : Globals) : g.install.names = g.names ∪ constantNames := by
  ext key
  simp only [names, constantNames, Set.mem_union, Set.mem_ofPred_eq, has, find?_install]
  by_cases hkey : isConstantName key = true
  · have hhas : (globalConstants.find? key).isSome = true := hkey
    simp [hkey, hhas]
  · simp [hkey, find?]

/-- The same names are bound afterwards, or these and all constants, and procedures are still bound
to their names. -/
structure Stable (g g' : Globals) : Prop where
  names : g'.names = g.names ∨ g'.names = g.names ∪ constantNames
  procedures : ∀ key v, isConstantName key = false → g.find? key = some v →
    v.isProcedure = true → g'.find? key = some v

theorem Stable.refl (g : Globals) : Stable g g :=
  ⟨.inl rfl, fun _ _ _ h _ ↦ h⟩

theorem Stable.trans {first middle last : Globals} (hfirst : Stable first middle)
    (hlast : Stable middle last) : Stable first last := by
  refine ⟨?_, fun key v hkey hv hp ↦
    hlast.procedures key v hkey (hfirst.procedures key v hkey hv hp) hp⟩
  rcases hfirst.names with h₁ | h₁ <;> rcases hlast.names with h₂ | h₂
  · exact .inl (h₂.trans h₁)
  · exact .inr (h₂.trans (by rw [h₁]))
  · exact .inr (h₂.trans h₁)
  · refine .inr (h₂.trans ?_)
    rw [h₁, Set.union_assoc, Set.union_self]

theorem stable_install (g : Globals) : Stable g g.install := by
  refine ⟨.inr (names_install g), fun key v hkey hv _ ↦ ?_⟩
  rw [find?_install, hkey]
  simpa [find?, hkey] using hv

theorem stable_put {g : Globals} {key : String} {old : Value} (hold : g.find? key = some old)
    (hp : old.isProcedure = false) (v : Value) : Stable g (g.put key v) := by
  refine ⟨.inl (names_put (by simp [names, has, hold]) v), fun other w _ hw hpw ↦ ?_⟩
  rw [find?_put]
  split_ifs with heq
  · rw [eq_of_beq heq, hw] at hold
    rw [Option.some.inj hold, hp] at hpw
    exact nomatch hpw
  · exact hw

end Globals

namespace Machine

@[simp] theorem assignKey_globals (m : Machine) (key : String) (v : Value) (type : Option Value) :
    (m.assignKey key v type).globals =
      if m.assignsGlobal key then m.globals.put key v else m.globals := by
  unfold assignKey
  cases type <;> split_ifs <;> rfl

@[simp] theorem assignKey_frame (m : Machine) (key : String) (v : Value) (type : Option Value) :
    (m.assignKey key v type).frame =
      { m.frame with
        locals := if m.assignsGlobal key then m.frame.locals else m.frame.locals.put key v
        types := type.elim m.frame.types (m.frame.types.put key) } := by
  unfold assignKey
  cases type <;> split_ifs <;> rfl

theorem assignKey_eq (m : Machine) (key : String) (v : Value) (type : Option Value) :
    m.assignKey key v type =
      { m with
        globals := (m.assignKey key v type).globals, frame := (m.assignKey key v type).frame } := by
  unfold assignKey
  cases type <;> split_ifs <;> rfl

/-- An assignment is made to one name, or to two inside a `With` block. -/
theorem assign_cases (m : Machine) (name : String) (v : Value) (type : Option Value) :
    ∃ key, m.assign name v type = m.assignKey key v type ∨
      ∃ longer, m.assign name v type = (m.assignKey key v type).assignKey longer v type := by
  refine ⟨Text.lower name, ?_⟩
  unfold assign
  dsimp only
  split_ifs
  · exact .inl rfl
  · exact .inr ⟨_, rfl⟩

theorem assignKey_stable (m : Machine) (key : String) (v : Value) (type : Option Value) :
    m.globals.Stable (m.assignKey key v type).globals := by
  rw [assignKey_globals]
  split_ifs with h
  · simp only [assignsGlobal, Bool.and_eq_true, Option.any_eq_true] at h
    obtain ⟨-, old, hold, hp⟩ := h
    exact Globals.stable_put hold (by simpa using hp) v
  · exact Globals.Stable.refl _

theorem assign_stable (m : Machine) (name : String) (v : Value) (type : Option Value) :
    m.globals.Stable (m.assign name v type).globals := by
  obtain ⟨key, h | ⟨longer, h⟩⟩ := m.assign_cases name v type
  · rw [h]
    exact m.assignKey_stable key v type
  · rw [h]
    exact (m.assignKey_stable key v type).trans (assignKey_stable _ longer v type)

theorem assign_eq (m : Machine) (name : String) (v : Value) (type : Option Value) :
    m.assign name v type =
      { m with
        globals := (m.assign name v type).globals, frame := (m.assign name v type).frame } := by
  obtain ⟨key, h | ⟨longer, h⟩⟩ := m.assign_cases name v type
  · rw [h]
    exact m.assignKey_eq key v type
  · rw [h, assignKey_eq, m.assignKey_eq key v type]

theorem assign_frame (m : Machine) (name : String) (v : Value) (type : Option Value) :
    ∃ locals types, (m.assign name v type).frame =
      { m.frame with locals := locals, types := types } := by
  obtain ⟨key, h | ⟨longer, h⟩⟩ := m.assign_cases name v type <;> rw [h] <;> simp

end Machine

/-! What all changes keep -/

theorem Changes.globals_stable (h : Changes strict role m m') : m.globals.Stable m'.globals := by
  induction h with
  | trans _ _ ihfirst ihlast => exact ihfirst.trans ihlast
  | activation _ m m' _ ih => exact (Globals.stable_install m.globals).trans ih
  | assign _ m name v type => exact m.assign_stable name v type
  | refl | report | files | drop | share | lengthen | control => exact Globals.Stable.refl _

theorem Changes.actions_extended (h : Changes strict role m m') :
    m.actions.toList <+: m'.actions.toList := by
  induction h with
  | trans _ _ ihfirst ihlast => exact ihfirst.trans ihlast
  | report _ m a =>
    rw [Array.toList_push]
    exact List.prefix_append _ _
  | activation _ _ _ _ ih => exact ih
  | assign _ m name v type =>
    have hactions : (m.assign name v type).actions = m.actions := by rw [m.assign_eq name v type]
    exact hactions ▸ List.prefix_rfl
  | refl | files | drop | share | lengthen | control => exact List.prefix_rfl

theorem Changes.entries_eq (h : Changes strict role m m') : m'.entries = m.entries := by
  induction h with
  | trans _ _ ihfirst ihlast => exact ihlast.trans ihfirst
  | report _ m a ha => simp [Machine.entries, ha]
  | activation _ _ _ _ ih => exact ih
  | assign _ m name v type => rw [m.assign_eq name v type, Machine.entries, Machine.entries]
  | refl | files | drop | share | lengthen | control => rfl

theorem Changes.heap_grows (h : Changes strict role m m') : m.heap.Grows m'.heap := by
  induction h with
  | trans _ _ ihfirst ihlast => exact ihfirst.trans ihlast
  | activation _ _ _ _ ih => exact ih
  | share _ m v => exact (Heap.keeps_box v m.heap).grows
  | lengthen _ m cell n => exact Heap.grows_lengthen m.heap cell n
  | assign _ m name v type =>
    rw [m.assign_eq name v type]
    exact Heap.Grows.refl _
  | refl | report | files | drop | control => exact Heap.Grows.refl _

/-- An operand changes nothing in the frame in which it is evaluated, except the file tables. -/
theorem Changes.frame_eq (h : Changes strict role m m') (hs : strict) (hrole : role = .operand) :
    ∃ opened closed, m'.frame = { m.frame with openFiles := opened, closedFiles := closed } := by
  induction h with
  | trans _ _ ihfirst ihlast =>
    obtain ⟨_, _, hfirst⟩ := ihfirst hrole
    obtain ⟨opened, closed, hlast⟩ := ihlast hrole
    exact ⟨opened, closed, by rw [hlast, hfirst]⟩
  | files _ m opened closed => exact ⟨opened, closed, rfl⟩
  | refl | report | drop | activation => exact ⟨_, _, rfl⟩
  | share _ _ _ h | lengthen _ _ _ _ h | assign _ _ _ _ _ h =>
    rw [hrole] at h
    exact nomatch h hs
  | control _ _ _ _ _ h =>
    rw [h hs] at hrole
    exact nomatch hrole

/-- Only a statement changes the flags of the running loops and the name of the `With` blocks. -/
theorem Changes.control_eq (h : Changes strict role m m') (hs : strict)
    (hrole : role ≠ .statement) :
    m'.frame.loops = m.frame.loops ∧ m'.frame.withName = m.frame.withName := by
  induction h with
  | trans _ _ ihfirst ihlast =>
    exact ⟨(ihlast hrole).1.trans (ihfirst hrole).1, (ihlast hrole).2.trans (ihfirst hrole).2⟩
  | assign _ m name v type =>
    obtain ⟨_, _, hframe⟩ := m.assign_frame name v type
    rw [hframe]
    exact ⟨rfl, rfl⟩
  | control _ _ _ _ _ h => exact absurd (h hs) hrole
  | refl | report | files | drop | activation | share | lengthen => exact ⟨rfl, rfl⟩

/-- What the surroundings of the program determine. -/
structure Machine.SameSettings (m m' : Machine) : Prop where
  properties : m'.properties = m.properties
  itemProperties : m'.itemProperties = m.itemProperties
  loopBound : m'.loopBound = m.loopBound
  dropDirectory : m'.dropDirectory = m.dropDirectory
  placeOf : m'.placeOf = m.placeOf

theorem Changes.same_settings (h : Changes strict role m m') : m.SameSettings m' := by
  induction h with
  | trans _ _ ihfirst ihlast =>
    exact ⟨ihlast.1.trans ihfirst.1, ihlast.2.trans ihfirst.2, ihlast.3.trans ihfirst.3,
      ihlast.4.trans ihfirst.4, ihlast.5.trans ihfirst.5⟩
  | activation _ _ _ _ ih => exact ⟨ih.1, ih.2, ih.3, ih.4, ih.5⟩
  | assign _ m name v type =>
    rw [m.assign_eq name v type]
    exact ⟨rfl, rfl, rfl, rfl, rfl⟩
  | refl | report | files | drop | share | lengthen | control => exact ⟨rfl, rfl, rfl, rfl, rfl⟩

/-! Variables hold operands -/

/-- All values of the table may stand as operands. -/
def Table.Admitted (strict : Prop) (t : Table Value) : Prop :=
  ∀ key v, t.find? key = some v → Admits strict .operand v

theorem Table.Admitted.put {t : Table Value} (ht : t.Admitted strict) (key : String) {v : Value}
    (hv : Admits strict .operand v) : (t.put key v).Admitted strict := by
  intro other w hw
  rw [Table.find?_put] at hw
  split_ifs at hw
  · rw [← Option.some.inj hw]
    exact hv
  · exact ht other w hw

theorem Table.Admitted.of_entries {t : Table Value}
    (h : ∀ e ∈ t.entries, e.2.fits .operand = true) : t.Admitted strict :=
  fun key v hv _ ↦ h (key, v) (Table.mem_of_find? hv)

theorem globalConstants_admitted : globalConstants.Admitted strict :=
  .of_entries (by decide)

theorem libraryConstants_admitted : Library.constants.Admitted strict :=
  .of_entries (by decide)

def Globals.Admitted (strict : Prop) (g : Globals) : Prop :=
  ∀ key v, g.find? key = some v → Admits strict .operand v

theorem Globals.Admitted.put {g : Globals} (hg : g.Admitted strict) (key : String) {v : Value}
    (hv : Admits strict .operand v) : (g.put key v).Admitted strict := by
  intro other w hw
  rw [Globals.find?_put] at hw
  split_ifs at hw
  · rw [← Option.some.inj hw]
    exact hv
  · exact hg other w hw

theorem Globals.Admitted.install {g : Globals} (hg : g.Admitted strict) :
    g.install.Admitted strict := by
  intro key v hv
  rw [Globals.find?_install] at hv
  split_ifs at hv with hkey
  · exact globalConstants_admitted key v hv
  · exact hg key v (by simpa [Globals.find?, hkey] using hv)

/-- Nothing that a name, a list or a property of the document stands for is a statement, and the
procedures among these keep operands and statements apart. -/
structure Machine.Admitted (strict : Prop) (m : Machine) : Prop where
  locals : m.frame.locals.Admitted strict
  globals : m.globals.Admitted strict
  heap : m.heap.Stocked (Admits strict .operand)
  properties : ∀ t, m.properties = some t → t.Admitted strict
  itemProperties : ∀ t, m.itemProperties = some t → t.Admitted strict

theorem Machine.Admitted.of_not (h : ¬ strict) (m : Machine) : m.Admitted strict :=
  ⟨fun _ _ _ hs ↦ absurd hs h, fun _ _ _ hs ↦ absurd hs h, fun _ _ _ hs ↦ absurd hs h,
    fun _ _ _ _ _ hs ↦ absurd hs h, fun _ _ _ _ _ hs ↦ absurd hs h⟩

/-- A machine without properties of a document is admitted with its tables and its lists. -/
theorem Machine.Admitted.of_tables (hlocals : m.frame.locals.Admitted strict)
    (hconstants : m.globals.constants.Admitted strict) (hothers : m.globals.others.Admitted strict)
    (hheap : m.heap.Stocked (Admits strict .operand)) (hproperties : m.properties = none)
    (hitems : m.itemProperties = none) : m.Admitted strict := by
  refine ⟨hlocals, fun key v hv ↦ ?_, hheap, fun t ht ↦ ?_, fun t ht ↦ ?_⟩
  · unfold Globals.find? at hv
    split_ifs at hv
    · exact hconstants key v hv
    · exact hothers key v hv
  · rw [hproperties] at ht
    exact nomatch ht
  · rw [hitems] at ht
    exact nomatch ht

theorem Machine.Admitted.assignKey (hm : m.Admitted strict) (key : String) {v : Value}
    (hv : Admits strict .operand v) (type : Option Value) :
    (m.assignKey key v type).Admitted strict := by
  rw [m.assignKey_eq key v type]
  refine ⟨?_, ?_, hm.heap, hm.properties, hm.itemProperties⟩
  · rw [Machine.assignKey_frame]
    dsimp only
    split_ifs
    · exact hm.locals
    · exact hm.locals.put key hv
  · rw [Machine.assignKey_globals]
    split_ifs
    · exact hm.globals.put key hv
    · exact hm.globals

theorem Machine.Admitted.assign (hm : m.Admitted strict) (name : String) {v : Value}
    (hv : Admits strict .operand v) (type : Option Value) :
    (m.assign name v type).Admitted strict := by
  obtain ⟨key, h | ⟨longer, h⟩⟩ := m.assign_cases name v type
  · rw [h]
    exact hm.assignKey key hv type
  · rw [h]
    exact (hm.assignKey key hv type).assignKey longer hv type

theorem Changes.admitted (h : Changes strict role m m') (hm : m.Admitted strict) :
    m'.Admitted strict := by
  induction h with
  | trans _ _ ihfirst ihlast => exact ihlast (ihfirst hm)
  | activation _ m m' _ ih =>
    have hm' := ih ⟨fun _ _ hv ↦ (nomatch hv), hm.globals.install, hm.heap, hm.properties,
      hm.itemProperties⟩
    exact ⟨hm.locals, hm'.globals, hm'.heap, hm'.properties, hm'.itemProperties⟩
  | share _ m v _ hv =>
    exact ⟨hm.locals, hm.globals, (Heap.Stocked.box v hm.heap hv).2, hm.properties,
      hm.itemProperties⟩
  | lengthen _ m cell n =>
    exact ⟨hm.locals, hm.globals, hm.heap.lengthen cell n, hm.properties, hm.itemProperties⟩
  | assign _ m name v type _ hv => exact hm.assign name hv type
  | refl => exact hm
  | report | files | drop | control =>
    exact ⟨hm.locals, hm.globals, hm.heap, hm.properties, hm.itemProperties⟩

end VbaTrace
