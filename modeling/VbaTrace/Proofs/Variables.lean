import VbaTrace.Proofs.Names
import VbaTrace.Proofs.WholeNumbers

/-!
Laws of the variable store. An assignment binds one name, or inside `With` blocks two
(`Machine.lookup_assign`), and every other name goes on standing for what it did. Case never matters:
for ASCII names, the lower-case form of a name behind that of a block is made of those of both
(`Text.lower_append`), so that each spelling of an assigned name is found under the block first.

A list that is assigned enters cells (`Heap.Holds`), and what others hold stays as it is
(`Heap.Holds.of_keeps`).
-/

set_option autoImplicit false

namespace VbaTrace

/-! Lower case -/

namespace Text

/-- All characters are ASCII ones. -/
def isAscii (s : String) : Bool := s.toList.all fun c ↦ c.toNat < 128

theorem isAscii_iff {s : String} : isAscii s = true ↔ ∀ c ∈ s.toList, c.toNat < 128 := by
  simp [isAscii]

theorem toNat_toLower_lt {c : Char} (hc : c.toNat < 128) : c.toLower.toNat < 128 :=
  of_ascii (P := fun c ↦ c.toLower.toNat < 128) (by decide +kernel) hc

theorem toLower_toLower {c : Char} (hc : c.toNat < 128) : c.toLower.toLower = c.toLower :=
  of_ascii (P := fun c ↦ c.toLower.toLower = c.toLower) (by decide +kernel) hc

theorem lowerFrom_append_of_ascii {front : List Char} (hfront : ∀ c ∈ front, c.toNat < 128)
    (before cs : List Char) :
    lowerFrom before (front ++ cs) = front.map Char.toLower ++ lowerFrom (front.reverse ++ before) cs := by
  induction front generalizing before with
  | nil => simp
  | cons c front ih =>
    obtain ⟨hc, hfront⟩ := List.forall_mem_cons.mp hfront
    simp [lowerFrom, lowerChar, hc, ih hfront]

/-- What becomes ASCII in lower case does so wherever it stands: only a capital sigma heeds its
neighbours. -/
theorem lowerFrom_congr {cs before : List Char} (h : ∀ c ∈ lowerFrom before cs, c.toNat < 128)
    (other : List Char) : lowerFrom other cs = lowerFrom before cs := by
  induction cs generalizing before other with
  | nil => rfl
  | cons c cs ih =>
    rw [lowerFrom, List.forall_mem_append] at h
    have hsigma : c ≠ capitalSigma := by
      rintro rfl
      have hforms : lowerChar before capitalSigma cs = ['ς'] ∨
          lowerChar before capitalSigma cs = ['σ'] := by
        change (if _ then _ else _) = _ ∨ (if _ then _ else _) = _
        by_cases hfinal : (meetsCased before && !meetsCased cs) = true <;> simp [hfinal]
      rcases hforms with hform | hform <;> simp [hform] at h
    have hchar : lowerChar other c cs = lowerChar before c cs := by
      simp [lowerChar, hsigma]
    rw [lowerFrom, lowerFrom, hchar, ih h.2]

theorem toList_lower (s : String) : (lower s).toList = lowerFrom [] s.toList :=
  String.toList_ofList

theorem toList_lower_of_isAscii {s : String} (hs : isAscii s = true) :
    (lower s).toList = s.toList.map Char.toLower := by
  have hsplit := lowerFrom_append_of_ascii (isAscii_iff.mp hs) [] []
  rw [toList_lower]
  simpa [lowerFrom] using hsplit

theorem lower_eq_of_isAscii {s t : String} (hs : isAscii s = true)
    (ht : s.toList.map Char.toLower = t.toList) : lower s = t := by
  rw [← String.toList_inj, toList_lower_of_isAscii hs, ht]

theorem isAscii_lower {s : String} (hs : isAscii s = true) : isAscii (lower s) = true := by
  rw [isAscii_iff, toList_lower_of_isAscii hs]
  intro c hc
  obtain ⟨d, hd, rfl⟩ := List.mem_map.mp hc
  exact toNat_toLower_lt (isAscii_iff.mp hs d hd)

theorem lower_lower {s : String} (hs : isAscii s = true) : lower (lower s) = lower s := by
  rw [← String.toList_inj, toList_lower_of_isAscii (isAscii_lower hs), toList_lower_of_isAscii hs,
    List.map_map]
  exact List.map_congr_left fun c hc ↦ toLower_toLower (isAscii_iff.mp hs c hc)

theorem lower_append {front s : String} (hfront : isAscii front = true)
    (hs : isAscii (lower s) = true) : lower (front ++ s) = lower front ++ lower s := by
  have hafter := isAscii_iff.mp hs
  rw [toList_lower] at hafter
  rw [← String.toList_inj, String.toList_append, toList_lower, String.toList_append,
    lowerFrom_append_of_ascii (isAscii_iff.mp hfront), lowerFrom_congr hafter,
    toList_lower_of_isAscii hfront, toList_lower]

end Text

/-! Lists in cells -/

namespace Heap

mutual

/-- The stored value is the given one, with its lists in cells. -/
def Holds (h : Heap) (w : Value) : Value → Prop
  | .list vs => ∃ cell < h.cells.size, w = .array cell ∧ HoldsAll h (h.read cell) vs
  | v => w = v

def HoldsAll (h : Heap) : List Value → List Value → Prop
  | w :: ws, v :: vs => Holds h w v ∧ HoldsAll h ws vs
  | [], [] => True
  | _, _ => False

end

mutual

theorem Holds.of_keeps {h h' : Heap} (hkeeps : Keeps h h') :
    ∀ {w : Value} (v : Value), h.Holds w v → h'.Holds w v
  | _, .list vs, hw => by
    rw [Holds] at hw ⊢
    obtain ⟨cell, hcell, hw, hall⟩ := hw
    refine ⟨cell, Nat.lt_of_lt_of_le hcell hkeeps.size_le, hw, ?_⟩
    rw [hkeeps.read_eq cell hcell]
    exact HoldsAll.of_keeps hkeeps _ vs hall
  | _, .null, hw | _, .bool _, hw | _, .int _, hw | _, .float _, hw | _, .text _, hw
  | _, .array _, hw | _, .tokens _, hw | _, .node _, hw | _, .routine _, hw => hw

theorem HoldsAll.of_keeps {h h' : Heap} (hkeeps : Keeps h h') :
    ∀ (ws vs : List Value), h.HoldsAll ws vs → h'.HoldsAll ws vs
  | w :: ws, v :: vs, hall => by
    rw [HoldsAll] at hall ⊢
    exact ⟨Holds.of_keeps hkeeps v hall.1, HoldsAll.of_keeps hkeeps ws vs hall.2⟩
  | [], [], hall => hall
  | [], _ :: _, hall | _ :: _, [], hall => hall.elim

end

mutual

/-- Moving a value into cells gives one that holds it. -/
theorem holds_box : ∀ (v : Value) (h : Heap), (box v h).2.Holds (box v h).1 v
  | .list vs, h => by
    rw [box, Holds]
    have hall := HoldsAll.of_keeps (keeps_alloc (boxAll vs h).2 (boxAll vs h).1) _ _
      (holdsAll_boxAll vs h)
    refine ⟨(boxAll vs h).2.cells.size, by simp [alloc], rfl, ?_⟩
    rwa [read_alloc, if_pos rfl]
  | .null, _ | .bool _, _ | .int _, _ | .float _, _ | .text _, _ | .array _, _ | .tokens _, _
  | .node _, _ | .routine _, _ => rfl

theorem holdsAll_boxAll : ∀ (vs : List Value) (h : Heap),
    (boxAll vs h).2.HoldsAll (boxAll vs h).1 vs
  | [], _ => trivial
  | v :: vs, h => by
    rw [boxAll, HoldsAll]
    exact ⟨Holds.of_keeps (keeps_boxAll vs _) v (holds_box v h), holdsAll_boxAll vs _⟩

end

end Heap

/-! What names stand for after an assignment -/

namespace Machine

/-- What a name in lower case stands for. -/
def lookupKey (m : Machine) (key : String) : Option Value :=
  (m.frame.locals.find? key).or ((m.globals.find? key).or (Library.entry? key))

theorem lookup_eq_lookupKey (m : Machine) (name : String) :
    m.lookup name = m.lookupKey (Text.lower name) :=
  lookup_eq m name

theorem lookupKey_assignKey (m : Machine) (key other : String) (v : Value) (type : Option Value) :
    (m.assignKey key v type).lookupKey other = if key = other then some v else m.lookupKey other := by
  unfold lookupKey
  rw [assignKey_frame, assignKey_globals]
  dsimp only
  by_cases hglobal : m.assignsGlobal key = true
  · have hlocal : m.frame.locals.find? key = none := by
      simp only [assignsGlobal, Bool.and_eq_true, Bool.not_eq_true', Table.has] at hglobal
      simpa using hglobal.1
    rw [if_pos hglobal, if_pos hglobal, Globals.find?_put]
    by_cases heq : key = other
    · subst other
      simp [hlocal]
    · simp [heq]
  · rw [if_neg hglobal, if_neg hglobal, Table.find?_put]
    by_cases heq : key = other <;> simp [heq]

theorem assign_withName (m : Machine) (name : String) (v : Value) (type : Option Value) :
    (m.assign name v type).frame.withName = m.frame.withName := by
  obtain ⟨_, _, hframe⟩ := m.assign_frame name v type
  rw [hframe]

theorem assign_of_outside {m : Machine} (hblock : m.frame.withName = "") (name : String) (v : Value)
    (type : Option Value) : m.assign name v type = m.assignKey (Text.lower name) v type := by
  simp [assign, hblock]

/-- The name that an assignment binds besides the given one, inside `With` blocks. -/
def blockKey (m : Machine) (name : String) : String :=
  Text.lower (m.frame.withName ++ Text.lower name)

theorem lookup_assign (m : Machine) (name other : String) (v : Value) (type : Option Value) :
    (m.assign name v type).lookup other =
      if Text.lower other = Text.lower name ∨
        (m.frame.withName ≠ "" ∧ Text.lower other = m.blockKey name) then some v
      else m.lookup other := by
  rw [lookup_eq_lookupKey, lookup_eq_lookupKey]
  by_cases hblock : m.frame.withName = ""
  · rw [assign_of_outside hblock, lookupKey_assignKey]
    simp [hblock, eq_comm]
  · have hassign : m.assign name v type =
        (m.assignKey (Text.lower name) v type).assignKey (m.blockKey name) v type := by
      simp [assign, hblock, blockKey]
    rw [hassign, lookupKey_assignKey, lookupKey_assignKey]
    by_cases hlonger : m.blockKey name = Text.lower other
    · simp [hblock, hlonger]
    · by_cases hbare : Text.lower name = Text.lower other
      · simp [hbare]
      · simp [hlonger, hbare, Ne.symm hlonger, Ne.symm hbare]

/-- A procedure among the global names is not assigned to. -/
theorem procedure_assignKey (m : Machine) (key : String) (v : Value) (type : Option Value)
    {name : String} {p : Value} (hp : p.isProcedure = true) (h : m.globals.find? name = some p) :
    (m.assignKey key v type).globals.find? name = some p := by
  rw [assignKey_globals]
  split_ifs with hglobal
  · have hne : key ≠ name := by
      rintro rfl
      simp [assignsGlobal, h, hp] at hglobal
    rw [Globals.find?_put]
    simp [hne, h]
  · exact h

theorem procedure_assign (m : Machine) (name : String) (v : Value) (type : Option Value)
    {key : String} {p : Value} (hp : p.isProcedure = true) (h : m.globals.find? key = some p) :
    (m.assign name v type).globals.find? key = some p := by
  obtain ⟨bare, heq | ⟨longer, heq⟩⟩ := m.assign_cases name v type
  · rw [heq]
    exact m.procedure_assignKey bare v type hp h
  · rw [heq]
    exact procedure_assignKey _ longer v type hp (m.procedure_assignKey bare v type hp h)

/-- One machine follows from another by an assignment to a name, which comes to stand for a value. -/
structure Binds (m m' : Machine) (name : String) (w : Value) : Prop where
  /-- Every spelling of the name stands for the value. -/
  found : ∀ other, Text.lower other = Text.lower name → fetch (.text other) m' = .ok w m'
  /-- Inside `With` blocks, so does the name behind theirs. -/
  inBlock : m.frame.withName ≠ "" → m'.lookup (m.frame.withName ++ name) = some w
  /-- All other names stand for what they did. -/
  others : ∀ other, Text.lower other ≠ Text.lower name →
    Text.lower other ≠ Text.lower (m.frame.withName ++ name) → m'.lookup other = m.lookup other
  /-- The lists that variables share keep their items. -/
  lists : m.heap.Keeps m'.heap
  /-- Procedures stay bound to their global names. -/
  procedures : ∀ key p, p.isProcedure = true → m.globals.find? key = some p →
    m'.globals.find? key = some p

theorem binds_assign {m : Machine} {name : String} (hblock : Text.isAscii m.frame.withName = true)
    (hname : Text.isAscii name = true) (w : Value) (type : Option Value) :
    m.Binds (m.assign name w type) name w := by
  have hlower : ∀ other, Text.lower other = Text.lower name →
      Text.lower (m.frame.withName ++ other) = m.blockKey name := by
    intro other hother
    have hascii := Text.isAscii_lower hname
    rw [blockKey, Text.lower_append hblock (hother ▸ hascii), hother,
      Text.lower_append hblock (Text.isAscii_lower hascii), Text.lower_lower hname]
  constructor
  · intro other hother
    refine fetch_of_some ?_
    rw [resolve?, assign_withName]
    by_cases hempty : m.frame.withName = ""
    · have hbare : (m.assign name w type).lookup other = some w := by
        rw [lookup_assign]
        simp [hother]
      rw [hempty, String.empty_append, hbare, Option.some_or]
    · have hlonger : (m.assign name w type).lookup (m.frame.withName ++ other) = some w := by
        rw [lookup_assign]
        simp [hempty, hlower other hother]
      rw [hlonger, Option.some_or]
  · intro hempty
    rw [lookup_assign]
    simp [hempty, hlower name rfl]
  · intro other hbare hlonger
    rw [hlower name rfl] at hlonger
    rw [lookup_assign]
    simp [hbare, hlonger]
  · have hheap : (m.assign name w type).heap = m.heap := by rw [m.assign_eq name w type]
    rw [hheap]
    exact .refl _
  · exact fun key p hp h ↦ m.procedure_assign name w type hp h

end Machine

theorem store_text (name : String) (v : Value) (type : Option Value) (m : Machine) :
    store (.text name) v type m =
      .ok () (Machine.assign { m with heap := (Heap.box v m.heap).2 } name (Heap.box v m.heap).1 type) :=
  rfl

/-- An assignment never fails, and binds the name to the value, which is then found in any case in
which the name is written and under the name of the enclosing `With` blocks. It changes neither what
other names stand for nor the procedures among the globals. -/
theorem store_binds (m : Machine) {name : String} (hblock : Text.isAscii m.frame.withName = true)
    (hname : Text.isAscii name = true) (v : Value) (type : Option Value) :
    ∃ w m', store (.text name) v type m = .ok () m' ∧ m'.heap.Holds w v ∧ m.Binds m' name w := by
  have hbinds := Machine.binds_assign (m := { m with heap := (Heap.box v m.heap).2 }) hblock hname
    (Heap.box v m.heap).1 type
  refine ⟨(Heap.box v m.heap).1, _, store_text name v type m, ?_, ?_⟩
  · rw [Machine.assign_eq]
    exact Heap.holds_box v m.heap
  · exact ⟨hbinds.found, hbinds.inBlock, hbinds.others,
      (Heap.keeps_box v m.heap).trans hbinds.lists, hbinds.procedures⟩

/-- A machine inside a `With` block, where the name of a function is about to be assigned and the
name behind that of the block is a global variable. -/
def insideForm : Machine :=
  { globals := { others := ⟨
      [("caption", .node (.function (.text "Caption") .null (.list []) .empty .null)),
        ("form1.caption", .int 0)]⟩ }
    frame := { withName := "Form1." } }

theorem store_binds_insideForm :
    Text.isAscii insideForm.frame.withName = true ∧ Text.isAscii "Caption" = true ∧
      ∃ w m', store (.text "Caption") (.list [.int 1, .list [.text "a"]]) none insideForm =
          .ok () m' ∧
        m'.heap.Holds w (.list [.int 1, .list [.text "a"]]) ∧
        insideForm.Binds m' "Caption" w :=
  ⟨by decide, by decide, store_binds insideForm (by decide) (by decide) _ none⟩

end VbaTrace
