import Mathlib.Tactic.SplitIfs
import VbaTrace.Proofs.Roles

/-!
Laws of shared lists. Moving a value into cells leaves the cells that exist as they are
(`Heap.keeps_box`), and a list that is too short for an assignment gets zeros behind its items.
`Heap.Grows` is what both have in common: an existing list keeps its items in their places, and
whatever is new in it is zero.
-/

set_option autoImplicit false

namespace VbaTrace

/-- A value as it stands in a cell, where lists are numbers of other cells. -/
def Value.isBoxed : Value → Bool
  | .list _ => false
  | _ => true

namespace Heap

theorem read_write (h : Heap) (cell other : Nat) (items : List Value) :
    (h.write cell items).read other =
      if cell = other ∧ cell < h.cells.size then items else h.read other := by
  unfold read write
  by_cases heq : cell = other
  · subst other
    by_cases hlt : cell < h.cells.size <;> simp [hlt]
  · simp [heq]

theorem read_alloc (h : Heap) (items : List Value) (cell : Nat) :
    (h.alloc items).2.read cell = if cell = h.cells.size then items else h.read cell := by
  unfold read alloc
  by_cases heq : cell = h.cells.size <;> simp [Array.getElem?_push, heq]

/-- The lists of the first heap are found in the second, with at most zeros added to them. -/
structure Grows (h h' : Heap) : Prop where
  size_le : h.cells.size ≤ h'.cells.size
  read_eq : ∀ cell < h.cells.size, ∃ n, h'.read cell = h.read cell ++ List.replicate n (.int 0)

theorem Grows.refl (h : Heap) : Grows h h :=
  ⟨Nat.le_refl _, fun _ _ ↦ ⟨0, by simp⟩⟩

theorem Grows.trans {first middle last : Heap} (hfirst : Grows first middle)
    (hlast : Grows middle last) : Grows first last := by
  refine ⟨Nat.le_trans hfirst.size_le hlast.size_le, fun cell hcell ↦ ?_⟩
  obtain ⟨k, hk⟩ := hfirst.read_eq cell hcell
  obtain ⟨n, hn⟩ := hlast.read_eq cell (Nat.lt_of_lt_of_le hcell hfirst.size_le)
  refine ⟨k + n, ?_⟩
  rw [hn, hk, List.append_assoc, List.replicate_append_replicate]

theorem grows_lengthen (h : Heap) (cell n : Nat) :
    Grows h (h.write cell (h.read cell ++ List.replicate n (.int 0))) := by
  refine ⟨by simp [write], fun other _ ↦ ?_⟩
  rw [read_write]
  split_ifs with heq
  · obtain ⟨rfl, -⟩ := heq
    exact ⟨n, rfl⟩
  · exact ⟨0, by simp⟩

/-- The lists of the first heap are in the second, as they were. -/
structure Keeps (h h' : Heap) : Prop where
  size_le : h.cells.size ≤ h'.cells.size
  read_eq : ∀ cell < h.cells.size, h'.read cell = h.read cell

theorem Keeps.refl (h : Heap) : Keeps h h :=
  ⟨Nat.le_refl _, fun _ _ ↦ rfl⟩

theorem Keeps.trans {first middle last : Heap} (hfirst : Keeps first middle)
    (hlast : Keeps middle last) : Keeps first last := by
  refine ⟨Nat.le_trans hfirst.size_le hlast.size_le, fun cell hcell ↦ ?_⟩
  rw [hlast.read_eq cell (Nat.lt_of_lt_of_le hcell hfirst.size_le), hfirst.read_eq cell hcell]

theorem keeps_alloc (h : Heap) (items : List Value) : Keeps h (h.alloc items).2 := by
  refine ⟨by simp [alloc], fun cell hcell ↦ ?_⟩
  rw [read_alloc, if_neg (Nat.ne_of_lt hcell)]

mutual

theorem keeps_box : ∀ (v : Value) (h : Heap), Keeps h (box v h).2
  | .list vs, h => by
    rw [box]
    exact (keeps_boxAll vs h).trans (keeps_alloc _ _)
  | .null, h | .bool _, h | .int _, h | .float _, h | .text _, h | .array _, h | .tokens _, h
  | .node _, h | .routine _, h => Keeps.refl h

theorem keeps_boxAll : ∀ (vs : List Value) (h : Heap), Keeps h (boxAll vs h).2
  | [], h => Keeps.refl h
  | v :: vs, h => by
    rw [boxAll]
    exact (keeps_box v h).trans (keeps_boxAll vs _)

end

/-- A list whose items need no cells takes one new cell. -/
theorem box_of_isBoxed {vs : List Value} (hvs : ∀ v ∈ vs, v.isBoxed = true) (h : Heap) :
    box (.list vs) h = h.alloc vs := by
  have hall : boxAll vs h = (vs, h) := by
    induction vs with
    | nil => rfl
    | cons v vs ih =>
      obtain ⟨hv, hvs⟩ := List.forall_mem_cons.mp hvs
      have hbox : box v h = (v, h) := by
        cases v with
        | list items => exact Bool.noConfusion hv
        | _ => rfl
      rw [boxAll, hbox]
      dsimp only
      rw [ih hvs]
  rw [box, hall]

theorem Keeps.grows {h h' : Heap} (hkeeps : Keeps h h') : Grows h h' := by
  refine ⟨hkeeps.size_le, fun cell hcell ↦ ⟨0, ?_⟩⟩
  rw [hkeeps.read_eq cell hcell, List.replicate_zero, List.append_nil]

/-- All items of the lists are of a kind. -/
def Stocked (P : Value → Prop) (h : Heap) : Prop :=
  ∀ cell, ∀ v ∈ h.read cell, P v

variable {P : Value → Prop} {h : Heap}

theorem stocked_empty : Stocked P {} := by
  simp [Stocked, read]

theorem Stocked.write (hh : Stocked P h) (cell : Nat) {items : List Value} (hitems : ∀ v ∈ items, P v) :
    Stocked P (h.write cell items) := by
  intro other
  rw [read_write]
  split_ifs
  · exact hitems
  · exact hh other

theorem Stocked.alloc (hh : Stocked P h) {items : List Value} (hitems : ∀ v ∈ items, P v) :
    Stocked P (h.alloc items).2 := by
  intro other
  rw [read_alloc]
  split_ifs
  · exact hitems
  · exact hh other

variable [ValueKind P]

theorem Stocked.lengthen (hh : Stocked P h) (cell n : Nat) :
    Stocked P (h.write cell (h.read cell ++ List.replicate n (.int 0))) := by
  refine hh.write cell fun v hv ↦ ?_
  rcases List.mem_append.mp hv with hv | hv
  · exact hh cell v hv
  · rw [List.eq_of_mem_replicate hv]
    exact ValueKind.int 0

mutual

theorem Stocked.box : ∀ (v : Value) {h : Heap}, Stocked P h → P v →
    P (Heap.box v h).1 ∧ Stocked P (Heap.box v h).2
  | .list vs, h, hh, hv => by
    rw [Heap.box]
    obtain ⟨hws, hh'⟩ := Stocked.boxAll vs hh ((ValueKind.list_iff vs).mp hv)
    exact ⟨ValueKind.array _, hh'.alloc hws⟩
  | .null, _, hh, hv | .bool _, _, hh, hv | .int _, _, hh, hv | .float _, _, hh, hv
  | .text _, _, hh, hv | .array _, _, hh, hv | .tokens _, _, hh, hv | .node _, _, hh, hv
  | .routine _, _, hh, hv => ⟨hv, hh⟩

theorem Stocked.boxAll : ∀ (vs : List Value) {h : Heap}, Stocked P h → (∀ v ∈ vs, P v) →
    (∀ w ∈ (Heap.boxAll vs h).1, P w) ∧ Stocked P (Heap.boxAll vs h).2
  | [], _, hh, _ => ⟨by simp [Heap.boxAll], hh⟩
  | v :: vs, h, hh, hvs => by
    rw [Heap.boxAll]
    obtain ⟨hw, hh₁⟩ := Stocked.box v hh (hvs v List.mem_cons_self)
    obtain ⟨hws, hh₂⟩ := Stocked.boxAll vs hh₁ fun x hx ↦ hvs x (List.mem_cons_of_mem v hx)
    exact ⟨List.forall_mem_cons.mpr ⟨hw, hws⟩, hh₂⟩

end

theorem Stocked.opened (hh : Stocked P h) {v : Value} (hv : P v) : P (h.opened v) := by
  cases v with
  | array cell => exact (ValueKind.list_iff _).mpr (hh cell)
  | _ => exact hv

theorem Stocked.resolveTo (hh : Stocked P h) (depth : Nat) {v : Value} (hv : P v) :
    P (h.resolveTo depth v) := by
  induction depth generalizing v with
  | zero => exact hv
  | succ depth ih =>
    have hmap {vs : List Value} (hvs : ∀ v ∈ vs, P v) : P (.list (vs.map (h.resolveTo depth))) :=
      (ValueKind.list_iff _).mpr (List.forall_mem_map.mpr fun v hv ↦ ih (hvs v hv))
    cases v with
    | array cell => exact hmap (hh cell)
    | list vs => exact hmap ((ValueKind.list_iff vs).mp hv)
    | _ => exact hv

theorem Stocked.resolve (hh : Stocked P h) {v : Value} (hv : P v) : P (h.resolve v) := by
  unfold Heap.resolve
  split
  · exact hh.resolveTo _ hv
  · exact hh.resolveTo _ hv
  · exact hv

end Heap

end VbaTrace
