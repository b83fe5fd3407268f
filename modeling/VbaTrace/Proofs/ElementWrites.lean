import VbaTrace.Proofs.ElementReads
import VbaTrace.Proofs.Splices

/-!
Writes to elements. An assignment to an element of a list makes the variable hold the list with the
value put at its place, with zeros up to there if the list was shorter (`evaluate_assign_item`). A
sequence of such assignments leaves at each place the value that was assigned there last, or else
what was there before (`getElem?_written`). An assignment of a number to an element of a text puts
the character with this number at its place, behind null characters if the text was shorter
(`evaluate_assign_character`), and reads give it back.

Both fail where the place has too many digits to be written, or where more would be added to the
list or text than can be held.
-/

set_option autoImplicit false

namespace VbaTrace

/-- Outside of `With` blocks, a name stands for a value; a list is given by its items. -/
structure Machine.HasValue (m : Machine) (name : String) (v : Value) : Prop where
  outside : m.frame.withName = ""
  contents : m.contents? name = some v

theorem Routine.call_uBound (evaluate : Evaluator) {m : Machine} {v : Value} {items : List Value}
    (hitems : m.heap.opened v = .list items) :
    Routine.call evaluate .uBound (some [v]) m = .ok (.int ((items.length : Int) - 1)) m := by
  rw [call_of_answer evaluate m (r := .uBound) rfl]
  cases v with
  | array cell =>
    cases hitems
    rfl
  | list vs =>
    cases hitems
    rfl
  | _ => exact nomatch hitems

namespace Semantics

variable {rounds depth : Nat} {name : String} {m m₁ m₂ : Machine} {index expression v : Value}

/-- The place can be written, and no more is added to get there than can be held. -/
structure InReach (length place : Nat) : Prop where
  shown : Decimal.isWritable place = true
  held : (place : Int) < length + Value.indexLimit

instance (length place : Nat) : Decidable (InReach length place) :=
  decidable_of_iff (Decimal.isWritable place = true ∧ (place : Int) < length + Value.indexLimit)
    ⟨fun h ↦ ⟨h.1, h.2⟩, fun h ↦ ⟨h.shown, h.held⟩⟩

theorem InReach.of_lt {length place : Nat} (hplace : place < Nat.pow 10 12) :
    InReach length place := by
  have hlimit : Value.indexLimit = 9223372036854775808 := rfl
  have hfar : Nat.pow 10 12 = 1000000000000 := rfl
  exact ⟨Decimal.isWritable_of_lt (by decide : 12 ≤ Decimal.digitLimit) hplace, by omega⟩

/-- Why an assignment to a place that is out of reach fails. -/
def reachFault (place : Nat) : Fault :=
  if Decimal.isWritable place then .overflow else .wrongValue

/-! One assignment -/

theorem hasValue_assign (h : m.frame.withName = "") (w : Value) :
    (m.assign name w none).HasValue name (m.heap.opened w) := by
  have houtside : (m.assign name w none).frame.withName = "" :=
    (m.assign_withName name w none).trans h
  have hfound : (m.assign name w none).resolve? name = some w := by
    rw [Machine.resolve?, houtside, String.empty_append, CopyLoop.lookup_assign_self,
      Option.some_or]
  have hheap : (m.assign name w none).heap = m.heap := by rw [m.assign_eq name w none]
  refine ⟨houtside, ?_⟩
  rw [Machine.contents?, hfound, hheap]
  rfl

/-- What an assignment to an element does when its expressions have been evaluated. -/
theorem evaluate_assign_element (own : Arguments) {place : Nat} {whole : Value}
    (hvalue : evalOperand (evaluate rounds depth) expression m = .ok v m₁)
    (hwritable : (m₁.heap.resolve v).isWritable = true)
    (hindex : evalOperand (evaluate rounds depth) index m₁ = .ok (.int place) m₂)
    (hfound : m₂.resolve? name = some whole) :
    evaluate rounds (depth + 1) (.node (.assign (.text name) index expression)) own m =
      if Decimal.isWritable place then
        (updateWhole whole (m₂.heap.opened whole) place v >>= fun new ↦
          store (.text name) new none >>= fun _ ↦ pure .null) m₂
      else .error .wrongValue m₂ := by
  have hnull : index.isNull = false := by
    cases index with
    | null => exact nomatch hindex
    | _ => rfl
  have hfetch : fetchWhole (.text name) m₂ = .ok whole m₂ :=
    Eval.handle_of_ok (fetch_of_some hfound) _ _
  change evalAssign (evaluate rounds depth) (.text name) index expression m = _
  unfold evalAssign assignElement
  rw [Eval.bind_of_ok hvalue, Eval.bind_of_ok (ensureWritable_of_isWritable hwritable), hnull]
  simp only [Bool.false_eq_true, if_false, bind_assoc]
  rw [Eval.bind_of_ok hindex, Eval.bind_of_ok (rfl : opened (.int place) m₂ = .ok (.int place) m₂),
    Eval.bind_of_ok
      (rfl : Eval.ofExcept (m₂.heap.opened (.int place)).toInt m₂ = .ok (place : Int) m₂)]
  by_cases hplace : Decimal.isWritable place = true
  · rw [if_pos hplace,
      Eval.bind_of_ok (ensureWritable_of_isWritable (isWritable_resolve_int _ hplace)),
      Eval.bind_of_ok hfetch]
    rfl
  · have hlong : (m₂.heap.resolve (.int place)).isWritable = false := by
      have hsame : m₂.heap.resolve (.int place) = .int place := rfl
      rw [hsame, Value.isWritable]
      exact Bool.eq_false_of_not_eq_true hplace
    rw [if_neg hplace, Eval.bind_of_error (ensureWritable_of_not_isWritable hlong)]

/-! Characters of a text -/

theorem updateText_code (s : String) (place : Nat) (c : Char) (m : Machine) :
    updateText s place (.int c.toNat) m =
      if (place : Int) < s.length + Value.indexLimit then
        .ok (.ofChars (putAt (Char.ofNat 0) s.toList place c)) m
      else .error .overflow m := by
  unfold updateText
  rw [extendTo_eq, String.length_toList]
  split_ifs with hfits
  · have hextra : ((place : Int) - s.length).toNat = place - s.toList.length := by
      rw [String.length_toList]
      omega
    rw [hextra, Eval.bind_of_ok (rfl : Eval.ofExcept (.ok _) m = .ok _ m)]
    simp only [Value.asInt?, charOf?_toNat, splice_extended]
    rfl
  · rfl

/-- A number that is assigned to an element of a text puts its character there. -/
theorem evaluate_assign_character (own : Arguments) {s : String} {place : Nat} {c : Char}
    (hvalue : evalOperand (evaluate rounds depth) expression m = .ok (.int c.toNat) m₁)
    (hindex : evalOperand (evaluate rounds depth) index m₁ = .ok (.int place) m₂)
    (h : m₂.HasValue name (.text s)) :
    evaluate rounds (depth + 1) (.node (.assign (.text name) index expression)) own m =
      if InReach s.length place then
        .ok .null (m₂.assign name (.ofChars (putAt (Char.ofNat 0) s.toList place c)) none)
      else .error (reachFault place) m₂ := by
  obtain ⟨whole, hfound, hopened⟩ := Option.map_eq_some_iff.mp h.contents
  rw [evaluate_assign_element own hvalue (isWritable_resolve_int _ (isWritable_code c)) hindex
    hfound, hopened, reachFault]
  by_cases hplace : Decimal.isWritable place = true
  · rw [if_pos hplace, if_pos hplace]
    have hupdate := updateText_code s place c m₂
    by_cases hfits : (place : Int) < s.length + Value.indexLimit
    · rw [if_pos hfits] at hupdate
      rw [if_pos (⟨hplace, hfits⟩ : InReach s.length place)]
      exact Eval.bind_of_ok hupdate _
    · rw [if_neg hfits] at hupdate
      rw [if_neg fun h : InReach s.length place ↦ hfits h.held]
      exact Eval.bind_of_error hupdate _
  · rw [if_neg hplace, if_neg hplace, if_neg fun h : InReach s.length place ↦ hplace h.shown]

/-! Items of a list -/

theorem updateList_of_lt (whole : Value) {items : List Value} {place : Nat}
    (hfits : (place : Int) < items.length + Value.indexLimit) (v : Value) (m : Machine) :
    ∃ h, updateList whole items place v m =
      .ok (.list (putAt (.int 0) items place v)) { m with heap := h } := by
  have hextra : ((place : Int) - items.length).toNat = place - items.length := by omega
  unfold updateList
  rw [extendTo_eq, if_pos hfits, hextra, Eval.bind_of_ok (rfl : Eval.ofExcept (.ok _) m = .ok _ m),
    splice_extended]
  cases whole <;> exact ⟨_, rfl⟩

theorem updateList_of_not_lt (whole : Value) {items : List Value} {place : Nat}
    (hlong : ¬ (place : Int) < items.length + Value.indexLimit) (v : Value) (m : Machine) :
    updateList whole items place v m = .error .overflow m := by
  unfold updateList
  rw [extendTo_eq, if_neg hlong]
  rfl

theorem isBoxed_of_isScalar (hv : isScalar v = true) : v.isBoxed = true := by
  cases v with
  | list => exact Bool.noConfusion hv
  | _ => rfl

theorem isBoxed_putAt {items : List Value} (hitems : ∀ w ∈ items, w.isBoxed = true) (place : Nat)
    (hv : v.isBoxed = true) : ∀ w ∈ putAt (.int 0) items place v, w.isBoxed = true := by
  intro w hw
  rcases List.mem_or_eq_of_mem_set hw with hw | rfl
  · rcases List.mem_append.mp hw with hw | hw
    · exact hitems w hw
    · rw [List.eq_of_mem_replicate hw]
      rfl
  · exact hv

theorem store_items (houtside : m.frame.withName = "") {items : List Value}
    (hitems : ∀ w ∈ items, w.isBoxed = true) :
    ∃ m₁, store (.text name) (.list items) none m = .ok () m₁ ∧ m₁.HasValue name (.list items) := by
  have houtside : ({ m with heap := (m.heap.alloc items).2 } : Machine).frame.withName = "" :=
    houtside
  have hread : (m.heap.alloc items).2.opened (.array m.heap.cells.size) = .list items := by
    rw [Heap.opened, Heap.read_alloc, if_pos rfl]
  refine ⟨_, store_text name (.list items) none m, ?_⟩
  rw [Heap.box_of_isBoxed hitems]
  exact hread ▸ hasValue_assign houtside (.array m.heap.cells.size)

/-- A number or text that is assigned to an element of a list is put there, if it can be written and
the place is in reach. -/
theorem evaluate_assign_item (own : Arguments) {items : List Value} {place : Nat}
    (hvalue : evalOperand (evaluate rounds depth) expression m = .ok v m₁)
    (hv : isScalar v = true)
    (hindex : evalOperand (evaluate rounds depth) index m₁ = .ok (.int place) m₂)
    (h : m₂.HasValue name (.list items)) (hitems : ∀ w ∈ items, w.isBoxed = true)
    (hwritable : v.isWritable = true) (hplace : InReach items.length place) :
    ∃ m₃, evaluate rounds (depth + 1) (.node (.assign (.text name) index expression)) own m =
        .ok .null m₃ ∧
      m₃.HasValue name (.list (putAt (.int 0) items place v)) := by
  obtain ⟨whole, hfound, hopened⟩ := Option.map_eq_some_iff.mp h.contents
  obtain ⟨heap, hupdate⟩ : ∃ heap, updateWhole whole (.list items) place v m₂ =
      .ok (.list (putAt (.int 0) items place v)) { m₂ with heap } :=
    updateList_of_lt whole hplace.held v m₂
  have hnew := isBoxed_putAt hitems place (isBoxed_of_isScalar hv)
  obtain ⟨m₃, hstore, hhas⟩ := @store_items name { m₂ with heap } h.outside _ hnew
  refine ⟨m₃, ?_, hhas⟩
  rw [evaluate_assign_element own hvalue ((resolve_of_isScalar _ hv).symm ▸ hwritable) hindex
    hfound, if_pos hplace.shown, hopened, Eval.bind_of_ok hupdate, Eval.bind_of_ok hstore]
  rfl

theorem evaluate_assign_item_fails (own : Arguments) {items : List Value} {place : Nat}
    (hvalue : evalOperand (evaluate rounds depth) expression m = .ok v m₁)
    (hv : isScalar v = true)
    (hindex : evalOperand (evaluate rounds depth) index m₁ = .ok (.int place) m₂)
    (h : m₂.HasValue name (.list items))
    (hnot : ¬ (v.isWritable = true ∧ InReach items.length place)) :
    ∃ m₃, evaluate rounds (depth + 1) (.node (.assign (.text name) index expression)) own m =
      .error (if v.isWritable then reachFault place else .wrongValue) m₃ := by
  rw [← resolve_of_isScalar m₁.heap hv] at hnot ⊢
  by_cases hwritable : (m₁.heap.resolve v).isWritable = true
  · obtain ⟨whole, hfound, hopened⟩ := Option.map_eq_some_iff.mp h.contents
    refine ⟨m₂, ?_⟩
    rw [evaluate_assign_element own hvalue hwritable hindex hfound, hopened, if_pos hwritable,
      reachFault]
    by_cases hshown : Decimal.isWritable place = true
    · have hlong : ¬ (place : Int) < items.length + Value.indexLimit := fun hheld ↦
        hnot ⟨hwritable, hshown, hheld⟩
      have hupdate : updateWhole whole (.list items) place v m₂ = .error .overflow m₂ :=
        updateList_of_not_lt whole hlong v m₂
      rw [if_pos hshown, if_pos hshown, Eval.bind_of_error hupdate]
    · rw [if_neg hshown, if_neg hshown]
  · refine ⟨m₁, ?_⟩
    rw [if_neg hwritable]
    change evalAssign (evaluate rounds depth) (.text name) index expression m = _
    unfold evalAssign
    rw [Eval.bind_of_ok hvalue]
    exact Eval.bind_of_error
      (ensureWritable_of_not_isWritable (Bool.eq_false_of_not_eq_true hwritable)) _

/-! Sequences of assignments -/

/-- An assignment to an element: its two expressions, and what they are to give. -/
structure ElementWrite where
  index : Value
  expression : Value
  place : Nat
  value : Value

namespace ElementWrite

def statement (name : String) (w : ElementWrite) : Value :=
  .node (.assign (.text name) w.index w.expression)

/-- The expressions give the place and the value, and leave the variable alone. -/
def Given (rounds depth : Nat) (name : String) (w : ElementWrite) (m : Machine) : Prop :=
  ∃ m₁ m₂, evalOperand (evaluate rounds depth) w.expression m = .ok w.value m₁ ∧
    evalOperand (evaluate rounds depth) w.index m₁ = .ok (.int w.place) m₂ ∧
    ∀ v, m.HasValue name v → m₂.HasValue name v

/-- Each assignment is given when those before it have been made. -/
def AllGiven (rounds depth : Nat) (name : String) : List ElementWrite → Machine → Prop
  | [], _ => True
  | w :: ws, m => w.Given rounds depth name m ∧
    ∀ v m', evaluate rounds (depth + 1) (w.statement name) none m = .ok v m' →
      AllGiven rounds depth name ws m'

/-- Each value can be written, and each place is in reach when the assignments before have been made
to a list of the given length. -/
def AllAccepted : Nat → List ElementWrite → Prop
  | _, [] => True
  | length, w :: ws => (w.value.isWritable = true ∧ InReach length w.place) ∧
    AllAccepted (max length (w.place + 1)) ws

/-- Why the first assignment that is not accepted fails. -/
def firstFault? : Nat → List ElementWrite → Option Fault
  | _, [] => none
  | length, w :: ws =>
    if w.value.isWritable = true ∧ InReach length w.place then
      firstFault? (max length (w.place + 1)) ws
    else some (if w.value.isWritable then reachFault w.place else .wrongValue)

/-- The items after assignments, one after the other. -/
def written (ws : List ElementWrite) (items : List Value) : List Value :=
  ws.foldl (fun items w ↦ putAt (.int 0) items w.place w.value) items

/-- The value that is assigned last at a place. -/
def last? (ws : List ElementWrite) (place : Nat) : Option Value :=
  (ws.reverse.find? fun w ↦ w.place == place).map value

theorem length_written (ws : List ElementWrite) (items : List Value) :
    (written ws items).length = (ws.map fun w ↦ w.place + 1).foldl max items.length := by
  induction ws generalizing items with
  | nil => rfl
  | cons w ws ih =>
    rw [written, List.foldl_cons, ← written, ih, length_putAt, List.map_cons, List.foldl_cons]

theorem last?_cons (w : ElementWrite) (ws : List ElementWrite) (place : Nat) :
    last? (w :: ws) place =
      (last? ws place).or (if w.place = place then some w.value else none) := by
  unfold last?
  rw [List.reverse_cons, List.find?_append, Option.map_or, List.find?_singleton]
  by_cases hplace : w.place = place <;> simp [hplace]

theorem getD_putAt (items : List Value) (place : Nat) (v : Value) (i : Nat) :
    (putAt (.int 0) items place v)[i]?.getD (.int 0) =
      if place = i then v else items[i]?.getD (.int 0) := by
  rw [getElem?_putAt]
  split_ifs <;> simp_all

/-- Each place holds what was assigned to it last, or else what it held before, or else zero. -/
theorem getD_written (ws : List ElementWrite) (items : List Value) (i : Nat) :
    (written ws items)[i]?.getD (.int 0) = ((last? ws i).or items[i]?).getD (.int 0) := by
  induction ws generalizing items with
  | nil => rfl
  | cons w ws ih =>
    rw [written, List.foldl_cons, ← written, ih, last?_cons]
    cases last? ws i with
    | some v => rfl
    | none =>
      rw [Option.none_or, getD_putAt, Option.none_or]
      split_ifs <;> rfl

theorem getElem?_written (ws : List ElementWrite) (items : List Value) {i : Nat}
    (hi : i < (written ws items).length) :
    (written ws items)[i]? = some (((last? ws i).or items[i]?).getD (.int 0)) := by
  rw [← getD_written, List.getElem?_eq_getElem hi, Option.getD_some]

/-- Assignments one after the other put their values into the list, one after the other, and the
first that is not accepted ends them. -/
theorem evalBlock_statements {ws : List ElementWrite} {items : List Value}
    (hgiven : AllGiven rounds depth name ws m) (h : m.HasValue name (.list items))
    (hitems : ∀ v ∈ items, v.isBoxed = true) (hvalues : ∀ w ∈ ws, isScalar w.value = true) :
    (AllAccepted items.length ws ∧
      ∃ m', evalBlock (evaluate rounds (depth + 1)) none (ws.map (statement name)) m = .ok () m' ∧
        m'.HasValue name (.list (written ws items))) ∨
    (¬ AllAccepted items.length ws ∧
      ∃ f m', evalBlock (evaluate rounds (depth + 1)) none (ws.map (statement name)) m =
        .error f m' ∧ firstFault? items.length ws = some f) := by
  induction ws generalizing m items with
  | nil => exact .inl ⟨trivial, m, rfl, h⟩
  | cons w ws ih =>
    obtain ⟨⟨m₁, m₂, hvalue, hindex, hkept⟩, hrest⟩ := hgiven
    obtain ⟨hv, hvalues⟩ := List.forall_mem_cons.mp hvalues
    by_cases haccepted : w.value.isWritable = true ∧ InReach items.length w.place
    · obtain ⟨m₃, hassign, hhas⟩ := evaluate_assign_item none hvalue hv hindex (hkept _ h) hitems
        haccepted.1 haccepted.2
      have hboxed := isBoxed_putAt hitems w.place (isBoxed_of_isScalar hv)
      have hblock := Eval.bind_of_ok hassign fun _ ↦
        evalBlock (evaluate rounds (depth + 1)) none (ws.map (statement name))
      rcases ih (hrest _ _ hassign) hhas hboxed hvalues with
        ⟨hall, m', hok, hfinal⟩ | ⟨hall, f, m', herror, hfault⟩
      · rw [length_putAt] at hall
        exact .inl ⟨⟨haccepted, hall⟩, m', hblock.trans hok, hfinal⟩
      · rw [length_putAt] at hall hfault
        exact .inr ⟨fun h ↦ hall h.2, f, m', hblock.trans herror, (if_pos haccepted).trans hfault⟩
    · obtain ⟨m₃, hfails⟩ :=
        evaluate_assign_item_fails none hvalue hv hindex (hkept _ h) haccepted
      exact .inr ⟨fun h ↦ haccepted h.1, _, m₃, Eval.bind_of_error hfails _, if_neg haccepted⟩

end ElementWrite

/-- Assignments to elements of a list, one after the other, whose expressions give places and
numbers or texts and do not change the list, return exactly if all these can be written and the
places are in reach; otherwise they fail as the first one does for which that is not so. They leave
a list that reaches as far as the old one or the farthest place. Each place holds what was assigned
to it last, or else what it held before, or else zero. The items of the list are as they stand in
its cell. -/
theorem writes_leave_last_values (rounds depth : Nat) {name : String} {ws : List ElementWrite}
    {items : List Value} {m : Machine} (h : m.HasValue name (.list items))
    (hitems : ∀ v ∈ items, v.isBoxed = true)
    (hgiven : ElementWrite.AllGiven rounds depth name ws m)
    (hvalues : ∀ w ∈ ws, isScalar w.value = true) :
    ((∃ m', evalBlock (evaluate rounds (depth + 1)) none (ws.map (ElementWrite.statement name)) m =
        .ok () m') ↔ ElementWrite.AllAccepted items.length ws) ∧
      (∀ f m', evalBlock (evaluate rounds (depth + 1)) none (ws.map (ElementWrite.statement name)) m =
        .error f m' → ElementWrite.firstFault? items.length ws = some f) ∧
      ∀ m', evalBlock (evaluate rounds (depth + 1)) none (ws.map (ElementWrite.statement name)) m =
          .ok () m' →
        ∃ (whole : Value) (final : List Value),
          fetch (.text name) m' = .ok whole m' ∧ m'.heap.opened whole = .list final ∧
          final.length = (ws.map fun w ↦ w.place + 1).foldl max items.length ∧
          (∀ i < final.length,
            final[i]? = some (((ElementWrite.last? ws i).or items[i]?).getD (.int 0))) ∧
          Routine.call (evaluate rounds depth) .uBound (some [whole]) m' =
            .ok (.int ((final.length : Int) - 1)) m' := by
  rcases ElementWrite.evalBlock_statements hgiven h hitems hvalues with
    ⟨hall, m₁, hblock, hfinal⟩ | ⟨hall, f, m₁, hfails, hfault⟩
  · rw [hblock]
    refine ⟨iff_of_true ⟨m₁, rfl⟩ hall, fun _ _ h ↦ (nomatch h), fun m' hm' ↦ ?_⟩
    cases hm'
    obtain ⟨whole, hfound, hopened⟩ := Option.map_eq_some_iff.mp hfinal.contents
    exact ⟨whole, ElementWrite.written ws items, fetch_of_some hfound, hopened,
      ElementWrite.length_written ws items, fun i hi ↦ ElementWrite.getElem?_written ws items hi,
      Routine.call_uBound _ hopened⟩
  · rw [hfails]
    refine ⟨iff_of_false (fun ⟨_, h⟩ ↦ nomatch h) hall, fun _ _ h ↦ ?_, fun _ h ↦ nomatch h⟩
    cases h
    exact hfault

/-! Assignments of texts -/

/-- The assignment of a text at a place, both written down as they are. -/
def ElementWrite.ofText (p : Nat × String) : ElementWrite :=
  ⟨.int p.1, .text p.2, p.1, .text p.2⟩

theorem isWritable_of_lt_far {place : Nat} (h : place < Nat.pow 10 21) :
    Decimal.isWritable place = true :=
  Decimal.isWritable_of_lt (by decide : 21 ≤ Decimal.digitLimit) h

theorem ElementWrite.allGiven_texts (texts : List (Nat × String))
    (hplaces : ∀ p ∈ texts, p.1 < Nat.pow 10 21) (htexts : ∀ p ∈ texts, '.' ∉ p.2.toList)
    (m : Machine) : AllGiven rounds depth name (texts.map ofText) m := by
  induction texts generalizing m with
  | nil => trivial
  | cons p texts ih =>
    obtain ⟨hplace, hplaces⟩ := List.forall_mem_cons.mp hplaces
    obtain ⟨htext, htexts⟩ := List.forall_mem_cons.mp htexts
    exact ⟨⟨m, m, gives_undotted htext, gives_int (isWritable_of_lt_far hplace), fun _ h ↦ h⟩,
      fun _ m' _ ↦ ih hplaces htexts m'⟩

theorem hasValue_holdingValue (h : Heap) (v : Value) : (holdingValue h v).HasValue "a" (h.opened v) :=
  ⟨rfl, contents?_holdingValue h v⟩

theorem writes_leave_last_values_gap :
    ∃ m' whole final, evalBlock (evaluate 1 1) none
        (([(2, "x"), (0, "y"), (2, "z")].map .ofText).map (ElementWrite.statement "a"))
        (holdingValue ⟨#[[.text "old"]]⟩ (.array 0)) = .ok () m' ∧
      m'.heap.opened whole = .list final ∧ final.length = 3 ∧
      final[0]? = some (.text "y") ∧ final[1]? = some (.int 0) ∧ final[2]? = some (.text "z") := by
  obtain ⟨hreturns, -, hfinal⟩ := writes_leave_last_values 1 0 (hasValue_holdingValue _ _)
    (List.forall_mem_singleton.mpr rfl)
    (ElementWrite.allGiven_texts [(2, "x"), (0, "y"), (2, "z")] (by decide) (by decide)
      (holdingValue ⟨#[[.text "old"]]⟩ (.array 0)))
    (List.all_eq_true.mp rfl)
  obtain ⟨m', hblock⟩ := hreturns.mpr ⟨⟨rfl, .of_lt (by decide)⟩, ⟨rfl, .of_lt (by decide)⟩,
    ⟨rfl, .of_lt (by decide)⟩, trivial⟩
  obtain ⟨whole, final, -, hopened, hlength, hitems, -⟩ := hfinal m' hblock
  have hthree : final.length = 3 := hlength
  refine ⟨m', whole, final, hblock, hopened, hthree, ?_⟩
  rw [hthree] at hitems
  exact ⟨hitems 0 (by decide), hitems 1 (by decide), hitems 2 (by decide)⟩

/-- Farther than a list or a text reaches. -/
def farPlace : Nat := Nat.pow 10 20

theorem not_inReach_farPlace {length : Nat} (hlength : length < 10) :
    ¬ InReach length farPlace := by
  rintro ⟨-, hheld⟩
  have hfar : (farPlace : Int) = 100000000000000000000 := by decide
  have hlimit : Value.indexLimit = 9223372036854775808 := rfl
  omega

/-- An assignment to a place that is too far ends a sequence of them. -/
theorem far_item_fails : ¬ ∀ (rounds depth : Nat) (name : String) (ws : List ElementWrite)
    (items : List Value) (m : Machine), m.HasValue name (.list items) →
    (∀ v ∈ items, v.isBoxed = true) → ElementWrite.AllGiven rounds depth name ws m →
    (∀ w ∈ ws, isScalar w.value = true) →
    ∃ m', evalBlock (evaluate rounds (depth + 1)) none (ws.map (ElementWrite.statement name)) m =
      .ok () m' := by
  intro h
  have hhas := hasValue_holdingValue ⟨#[[.text "old"]]⟩ (.array 0)
  have hitems : ∀ v ∈ [Value.text "old"], v.isBoxed = true := List.forall_mem_singleton.mpr rfl
  have hgiven : ElementWrite.AllGiven 1 0 "a" ([(farPlace, "x")].map .ofText)
      (holdingValue ⟨#[[.text "old"]]⟩ (.array 0)) :=
    ElementWrite.allGiven_texts _ (by decide) (by decide) _
  have hvalues : ∀ w ∈ [(farPlace, "x")].map ElementWrite.ofText, isScalar w.value = true :=
    List.all_eq_true.mp rfl
  obtain ⟨m', hblock⟩ := h 1 0 "a" _ _ _ hhas hitems hgiven hvalues
  rcases ElementWrite.evalBlock_statements hgiven hhas hitems hvalues with
    ⟨hall, -⟩ | ⟨-, f, m₁, hfails, -⟩
  · exact not_inReach_farPlace (by decide) hall.1.2
  · rw [hfails] at hblock
    exact nomatch hblock

/-! Characters that were written are read -/

theorem codeAt_putAt (s : String) (i : Nat) (c : Char) (j : Nat) :
    codeAt (String.ofList (putAt (Char.ofNat 0) s.toList i c)) (.int j) =
      if j = i then .int c.toNat
      else if hj : j < s.toList.length then .int s.toList[j].toNat
      else if j < i then .int 0
      else .null := by
  rw [codeAt_natCast, String.toList_ofList, getElem?_putAt]
  split_ifs with _ hj
  · rfl
  · rw [List.getElem?_eq_getElem hj]
    rfl
  · rfl
  · rfl

/-- An assignment of the number of a character to an element of a text returns exactly if the place
is in reach, and fails as the place tells if it is not. The text then reaches as far as before or to
the place, and reads of its elements give the number at the place, the numbers of the old characters
at all other old places, and zero between the old end and the place. -/
theorem written_character_read_back (rounds depth : Nat) (own : Arguments) {name s : String}
    {expression index : Value} {c : Char} {i : Nat} {m m₁ m₂ : Machine}
    (hvalue : evalOperand (evaluate rounds depth) expression m = .ok (.int c.toNat) m₁)
    (hindex : evalOperand (evaluate rounds depth) index m₁ = .ok (.int i) m₂)
    (h : m₂.HasValue name (.text s)) :
    ((∃ m₃, evaluate rounds (depth + 1) (.node (.assign (.text name) index expression)) own m =
        .ok .null m₃) ↔ InReach s.length i) ∧
      (∀ f m₃, evaluate rounds (depth + 1) (.node (.assign (.text name) index expression)) own m =
        .error f m₃ → f = reachFault i) ∧
      ∀ m₃, evaluate rounds (depth + 1) (.node (.assign (.text name) index expression)) own m =
          .ok .null m₃ →
        ∃ t : String, m₃.HasValue name (.text t) ∧ t.length = max s.length (i + 1) ∧
          ∀ (j : Nat) (params : Value) (m₄ : Machine),
            evalArguments (evaluate rounds depth) params m₃ = .ok [.int j] m₄ →
            m₄.contents? name = some (.text t) → Decimal.isWritable j = true →
            ∃ v m₅, evaluate rounds (depth + 1) (.node (.call name params)) own m₃ = .ok v m₅ ∧
              (j = i → v = .int c.toNat) ∧
              (∀ hj : j < s.toList.length, j ≠ i → v = .int s.toList[j].toNat) ∧
              (s.length ≤ j → j < i → v = .int 0) := by
  rw [evaluate_assign_character own hvalue hindex h]
  by_cases hplace : InReach s.length i
  · rw [if_pos hplace]
    refine ⟨iff_of_true ⟨_, rfl⟩ hplace, fun _ _ h ↦ (nomatch h), fun m₃ hm₃ ↦ ?_⟩
    cases hm₃
    refine ⟨_, hasValue_assign h.outside _, ?_, fun j params m₄ hargs htext hj ↦ ?_⟩
    · rw [← String.length_toList, String.toList_ofList, length_putAt, String.length_toList]
    · refine ⟨_, _, evaluate_call_text own hargs (isWritable_resolve_place _ hj) htext, ?_⟩
      rw [codeAt_putAt]
      refine ⟨fun hsame ↦ if_pos hsame, fun hold hne ↦ ?_, fun hbehind hbefore ↦ ?_⟩
      · rw [if_neg hne, dif_pos hold]
      · have hnew : ¬ j < s.toList.length := by rwa [String.length_toList, Nat.not_lt]
        rw [if_neg (Nat.ne_of_lt hbefore), dif_neg hnew, if_pos hbefore]
  · rw [if_neg hplace]
    exact ⟨iff_of_false (fun ⟨_, h⟩ ↦ nomatch h) hplace,
      fun _ _ h ↦ (EStateM.Result.error.inj h).1.symm, fun _ h ↦ nomatch h⟩

theorem written_character_read_back_gap :
    ∃ (t : String) (m₃ : Machine), m₃.HasValue "a" (.text t) ∧ t.length = 4 ∧
      evaluate 1 1 (.node (.assign (.text "a") (.int (3 : Nat)) (.int 'c'.toNat))) none
        (holdingValue {} (.text "ab")) = .ok .null m₃ ∧
      (∃ m₄, evaluate 1 1 (.node (.call "a" (.tokens (.ofList [.int (3 : Nat)])))) none m₃ =
        .ok (.int 'c'.toNat) m₄) ∧
      (∃ m₄, evaluate 1 1 (.node (.call "a" (.tokens (.ofList [.int (1 : Nat)])))) none m₃ =
        .ok (.int 'b'.toNat) m₄) ∧
      ∃ m₄, evaluate 1 1 (.node (.call "a" (.tokens (.ofList [.int (2 : Nat)])))) none m₃ =
        .ok (.int 0) m₄ := by
  obtain ⟨hreturns, -, hread⟩ := written_character_read_back 1 0 none
    (gives_int (isWritable_code 'c')) (gives_int (isWritable_of_lt_far (by decide : 3 < _)))
    (hasValue_holdingValue {} (.text "ab"))
  obtain ⟨m₃, hassign⟩ := hreturns.mpr (.of_lt (by decide))
  obtain ⟨t, hhas, hlength, hread⟩ := hread m₃ hassign
  have hplace (j : Nat) (hj : j < 4) := isWritable_of_lt_far (Nat.lt_trans hj (by decide))
  have hplaces (j : Nat) (hj : j < 4) :=
    hread j _ m₃ (evalArguments_place (hplace j hj) m₃) hhas.contents (hplace j hj)
  obtain ⟨_, m₄, hthird, hnew, -, -⟩ := hplaces 3 (by decide)
  obtain ⟨_, m₅, hfirst, -, hold, -⟩ := hplaces 1 (by decide)
  obtain ⟨_, m₆, hsecond, -, -, hgap⟩ := hplaces 2 (by decide)
  rw [hnew rfl] at hthird
  rw [hold (by decide) (by decide)] at hfirst
  rw [hgap (by decide) (by decide)] at hsecond
  exact ⟨t, m₃, hhas, hlength, hassign, ⟨m₄, hthird⟩, ⟨m₅, hfirst⟩, ⟨m₆, hsecond⟩⟩

/-- An assignment to a place that is too far fails. -/
theorem far_character_fails : ¬ ∀ (rounds depth : Nat) (name s : String) (expression index : Value)
    (c : Char) (i : Nat) (m m₁ m₂ : Machine),
    evalOperand (evaluate rounds depth) expression m = .ok (.int c.toNat) m₁ →
    evalOperand (evaluate rounds depth) index m₁ = .ok (.int i) m₂ → m₂.HasValue name (.text s) →
    ∃ m₃, evaluate rounds (depth + 1) (.node (.assign (.text name) index expression)) none m =
      .ok .null m₃ := by
  intro h
  have hvalue : Gives (evaluate 1 0) (holdingValue {} (.text "ab")) _ _ :=
    gives_int (isWritable_code 'c')
  have hindex : Gives (evaluate 1 0) (holdingValue {} (.text "ab")) _ _ :=
    gives_int (isWritable_of_lt_far (by decide : farPlace < _))
  have hhas := hasValue_holdingValue {} (.text "ab")
  obtain ⟨m₃, hassign⟩ := h 1 0 "a" "ab" _ _ 'c' farPlace _ _ _ hvalue hindex hhas
  rw [evaluate_assign_character none hvalue hindex hhas,
    if_neg (not_inReach_farPlace (by decide))] at hassign
  exact nomatch hassign

end Semantics

end VbaTrace
