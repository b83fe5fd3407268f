import VbaTrace.Proofs.LoopExits
import VbaTrace.Proofs.Unwinding

/-!
Variables inside `With` blocks. The name of the blocks and that of a variable are put together
without a dot, and the machine looks for the whole first. So an assignment inside of a block `e`
changes besides its variable `x` the one with the name `ex`, which may be any other variable, and
not `e.x`; and where there is such a variable, it is read in place of `x` (`names_glued_in_block`).
Which name the blocks have at a statement is told by `Reaches.withName_eq`.
-/

set_option autoImplicit false

namespace VbaTrace

namespace Text

theorem isAscii_append {s t : String} :
    isAscii (s ++ t) = true ↔ isAscii s = true ∧ isAscii t = true := by
  simp [isAscii, String.toList_append]

theorem length_lower {s : String} (hs : isAscii s = true) : (lower s).length = s.length := by
  rw [← String.length_toList, ← String.length_toList, toList_lower_of_isAscii hs, List.length_map]

/-- A dot between the name of a block and that of a variable makes another name, in any case. -/
theorem lower_dotted_ne {block x : String} (hblock : isAscii block = true) (hx : isAscii x = true) :
    lower (block ++ "." ++ x) ≠ lower x ∧ lower (block ++ "." ++ x) ≠ lower (block ++ lower x) := by
  have hdotted : (lower (block ++ "." ++ x)).length = block.length + 1 + x.length := by
    have hdot : ".".length = 1 := by decide
    rw [length_lower (isAscii_append.mpr ⟨isAscii_append.mpr ⟨hblock, by decide⟩, hx⟩),
      String.length_append, String.length_append, hdot]
  have hglued : (lower (block ++ lower x)).length = block.length + x.length := by
    rw [length_lower (isAscii_append.mpr ⟨hblock, isAscii_lower hx⟩), String.length_append,
      length_lower hx]
  constructor
  · intro h
    rw [h, length_lower hx] at hdotted
    omega
  · intro h
    rw [h, hglued] at hdotted
    omega

end Text

theorem fetch_eq_ok_iff {x : String} {v : Value} {m : Machine} :
    fetch (.text x) m = .ok v m ↔ m.resolve? x = some v := by
  cases h : m.resolve? x with
  | some w => simp [fetch_of_some h]
  | none => simp [fetch_of_none h]

namespace Semantics

/-- The machine with other blocks around it. -/
def inBlocks (name : String) (m : Machine) : Machine :=
  { m with frame := { m.frame with withName := name } }

theorem resolve?_inBlocks (name : String) (m : Machine) (x : String) :
    (inBlocks name m).resolve? x = (m.lookup (name ++ x)).or (m.lookup x) :=
  rfl

/-- A variable is read in two places alike if what is found under the one name of the blocks is what
is read in the other place, and if nothing is found, the name of the other blocks makes no
difference. -/
theorem resolve?_inBlocks_iff (name outer : String) (m : Machine) (x : String) :
    (inBlocks name m).resolve? x = (inBlocks outer m).resolve? x ↔
      (∀ v, m.lookup (name ++ x) = some v → (m.lookup (outer ++ x)).or (m.lookup x) = some v) ∧
        (m.lookup (name ++ x) = none → ∀ v, m.lookup (outer ++ x) = some v →
          m.lookup x = some v) := by
  rw [resolve?_inBlocks, resolve?_inBlocks]
  cases m.lookup (name ++ x) with
  | none => cases m.lookup (outer ++ x) <;> simp
  | some v => simp [eq_comm]

/-- Inside of blocks, an assignment gives the value to two names. -/
theorem evalAssign_in_block {evaluate : Evaluator} {m m₁ : Machine} {x : String}
    {expression v : Value} (hblock : m₁.frame.withName ≠ "")
    (hvalue : evalOperand evaluate expression m = .ok v m₁)
    (hwritable : (m₁.heap.resolve v).isWritable = true) :
    ∃ w m', evalAssign evaluate (.text x) .null expression m = .ok .null m' ∧
      m'.heap.Holds w
        (convertFor ((m₁.frame.types.find? (Text.lower x)).getD .null) v (m₁.heap.opened v)) ∧
      ∀ y, m'.lookup y =
        if Text.lower y = Text.lower x ∨
          Text.lower y = Text.lower (m₁.frame.withName ++ Text.lower x) then some w
        else m₁.lookup y := by
  obtain ⟨new, hnew⟩ : ∃ new,
      convertFor ((m₁.frame.types.find? (Text.lower x)).getD .null) v (m₁.heap.opened v) = new :=
    ⟨_, rfl⟩
  refine ⟨(Heap.box new m₁.heap).1,
    Machine.assign { m₁ with heap := (Heap.box new m₁.heap).2 } x (Heap.box new m₁.heap).1 none,
    ?_, ?_, fun y ↦ ?_⟩
  · exact evalAssign_of_ok hvalue hwritable hnew
  · rw [hnew, Machine.assign_eq]
    exact Heap.holds_box new m₁.heap
  · have hblock' : ({ m₁ with heap := (Heap.box new m₁.heap).2 } : Machine).frame.withName ≠ "" :=
      hblock
    rw [Machine.lookup_assign]
    simp only [hblock', ne_eq, not_false_eq_true, true_and]
    rfl

variable {limit depth : Nat} {e : String} {body : Value} {args : Arguments} {m m₁ : Machine}
  {s : Node} {inner : List Pending} {p : Pending}

theorem isBlockName_of_tidy {free : Bool} (h : (Value.node (.withBlock (.text e) body)).Tidy free) :
    isBlockName e = true := by
  have htidy := h.isTidy
  simp only [Value.isTidy, Node.isTidy, Bool.and_eq_true] at htidy
  exact htidy.1

/-- At a statement of a block, the name of the block stands behind those of the outer blocks, and
behind it those of the blocks in which the statement stands besides. Only a loop over items in the
body can leave other names there. -/
theorem Reaches.withName_eq (hblock : (Value.node (.withBlock (.text e) body)).Tidy false)
    (hargs : AdmitsArguments True args) (hm : m.Admitted True)
    (h : Reaches limit s (depth + 1) (.node (.withBlock (.text e) body)) args m (inner ++ [p]) m₁) :
    ∃ names, (∀ name ∈ names, isBlockName name = true) ∧
      m₁.frame.withName = names.foldl enterWith (enterWith m.frame.withName e) ∧
      (body.isTidy true = true → names = Pending.blockNames inner) := by
  generalize hps : inner ++ [p] = ps at h
  cases h with
  | here => exact absurd hps (by simp)
  | loop hnot => exact nomatch hnot
  | @block _ _ _ _ m₂ m₃ _ front s' rest ps _ hopen hfront hreaches =>
    obtain ⟨rfl, -⟩ := List.append_inj' hps rfl
    by_cases hbody : body.isTidy true = true
    · have htidy : (Value.node (.withBlock (.text e) body)).Tidy true :=
        ⟨hblock.fits, by simp [Value.isTidy, Node.isTidy, isBlockName_of_tidy hblock, hbody]⟩
      obtain ⟨hm₃, ⟨opened, hopens, hkept⟩, hs, -⟩ :=
        obeyed_into_block htidy.obeys hargs hm hopen hfront
      obtain ⟨-, base, hbase, flags, -, hadded⟩ :=
        hreaches.nested hs (admitsArguments_passedOn hargs _) hm₃
      have hinside := hopens.control_eq htidy.obeys.node
      have hname : base.withName = enterWith m.frame.withName e := by
        rcases (Control.Kept.trans hkept hbase).eq with rfl | rfl <;>
          exact congrArg Control.withName hinside
      exact ⟨_, hadded.plain, hname ▸ hadded.withName, fun _ ↦ rfl⟩
    · obtain ⟨hm₃, ⟨opened, hopens, hkept⟩, hs, -⟩ :=
        obeyed_into_block hblock.obeys hargs hm hopen hfront
      obtain ⟨-, hkept', -⟩ := hreaches.obeyed hs (admitsArguments_passedOn hargs _) hm₃
      have hinside : (m.frame.control.inside (.withBlock (.text e) body)).Kept false
          m₁.frame.control := hopens.control_eq hblock.obeys.node ▸ Control.Kept.trans hkept hkept'
      rcases hinside with ⟨_, names, hadded, -⟩ | ⟨_, names, hadded, -⟩
      · exact ⟨names, hadded.plain, hadded.withName, fun h ↦ absurd h hbody⟩
      · exact ⟨names, hadded.plain, hadded.withName, fun h ↦ absurd h hbody⟩

theorem Reaches.withName_ne_empty (hblock : (Value.node (.withBlock (.text e) body)).Tidy false)
    (hargs : AdmitsArguments True args) (hm : m.Admitted True)
    (h : Reaches limit s (depth + 1) (.node (.withBlock (.text e) body)) args m (inner ++ [p]) m₁) :
    m₁.frame.withName ≠ "" := by
  obtain ⟨names, hnames, hname, -⟩ := h.withName_eq hblock hargs hm
  have hblock := length_lt_enterWith (isBlockName_of_tidy hblock) m.frame.withName
  have hinner := length_le_foldl_enterWith hnames (enterWith m.frame.withName e)
  intro hempty
  rw [← hname, hempty] at hinner
  exact absurd (hblock.trans_le hinner) (Nat.not_lt_zero _)

/-- Inside of a block, the names of the blocks and that of a variable are put together. An
assignment gives the value to its variable and to the one with that name, and to no other variable,
so not to the one with a dot between the names. A variable is read under that name first, so that it
is read as it is outside of the block exactly if no other value stands there, and none under its
name behind that of the outer blocks. -/
theorem names_glued_in_block (hblock : (Value.node (.withBlock (.text e) body)).Tidy false)
    (hargs : AdmitsArguments True args) (hm : m.Admitted True)
    (h : Reaches limit s (depth + 1) (.node (.withBlock (.text e) body)) args m (inner ++ [p]) m₁) :
    (∃ names, (∀ name ∈ names, isBlockName name = true) ∧
      m₁.frame.withName = names.foldl enterWith (enterWith m.frame.withName e) ∧
      (body.isTidy true = true → names = Pending.blockNames inner)) ∧
    (∀ x v, fetch (.text x) m₁ = .ok v m₁ ↔
      (m₁.lookup (m₁.frame.withName ++ x)).or (m₁.lookup x) = some v) ∧
    (∀ x, (∀ v, fetch (.text x) m₁ = .ok v m₁ ↔
        fetch (.text x) (inBlocks m.frame.withName m₁) = .ok v (inBlocks m.frame.withName m₁)) ↔
      (∀ v, m₁.lookup (m₁.frame.withName ++ x) = some v →
          (m₁.lookup (m.frame.withName ++ x)).or (m₁.lookup x) = some v) ∧
        (m₁.lookup (m₁.frame.withName ++ x) = none →
          ∀ v, m₁.lookup (m.frame.withName ++ x) = some v → m₁.lookup x = some v)) ∧
    ∀ x expression d as v m₂, s = .assign (.text x) .null expression →
      evalOperand (evaluate limit d) expression m₁ = .ok v m₂ →
      (m₂.heap.resolve v).isWritable = true →
      ∃ w m', evaluate limit (d + 1) (.node s) as m₁ = .ok .null m' ∧
        m'.heap.Holds w
          (convertFor ((m₂.frame.types.find? (Text.lower x)).getD .null) v (m₂.heap.opened v)) ∧
        (∀ y, m'.lookup y =
          if Text.lower y = Text.lower x ∨
            Text.lower y = Text.lower (m₁.frame.withName ++ Text.lower x) then some w
          else m₂.lookup y) ∧
        (Text.isAscii m₁.frame.withName = true → Text.isAscii x = true →
          m'.lookup (m₁.frame.withName ++ "." ++ x) =
            m₂.lookup (m₁.frame.withName ++ "." ++ x)) := by
  refine ⟨h.withName_eq hblock hargs hm, fun x v ↦ ?_, fun x ↦ ?_, ?_⟩
  · rw [fetch_eq_ok_iff, Machine.resolve?]
  · simp only [fetch_eq_ok_iff]
    rw [← resolve?_inBlocks_iff, Option.ext_iff]
    rfl
  · rintro x expression d as v m₂ rfl hvalue hwritable
    obtain ⟨hm₁, -, hs, -⟩ := h.obeyed hblock.obeys hargs hm
    have hparts := hs.fits
    simp only [Value.fits, Node.fits, Bool.and_eq_true] at hparts
    have hoperand : Admits True .operand expression := fun _ ↦ hparts.2.2
    have hstays := Stays.of_operand (ensures_evalOperand (evaluates True limit d) hoperand)
    obtain ⟨-, hflow, -⟩ := (hstays _).ok hm₁ rfl hvalue
    have hname : m₂.frame.withName = m₁.frame.withName := congrArg (·.control.withName) hflow
    have hinside : m₂.frame.withName ≠ "" := hname ▸ h.withName_ne_empty hblock hargs hm
    obtain ⟨w, m', hassign, hholds, hlookup⟩ :=
      evalAssign_in_block (x := x) hinside hvalue hwritable
    rw [hname] at hlookup
    refine ⟨w, m', hassign, hholds, hlookup, fun hascii hx ↦ ?_⟩
    obtain ⟨hbare, hglued⟩ := Text.lower_dotted_ne hascii hx
    rw [hlookup, if_neg (not_or.mpr ⟨hbare, hglued⟩)]

/-- An assignment inside of a block. -/
def assigningBlock (e x value : String) : Node :=
  .withBlock (.text e) (.list [.node (.assign (.text x) .null (.text value))])

/-- A machine with two variables. -/
def twoVariables : Machine :=
  { frame := { locals := ⟨[("ab", .text "1"), ("b", .text "2")]⟩ } }

theorem twoVariables_admitted : twoVariables.Admitted True :=
  .of_tables (.of_entries (by decide)) (.of_entries (by decide)) (.of_entries (by decide))
    Heap.stocked_empty rfl rfl

theorem names_glued_in_block_assigning :
    (Value.node (assigningBlock "a" "b" "3")).Tidy false ∧ twoVariables.Admitted True ∧
      ∃ p, Reaches 3 (.assign (.text "b") .null (.text "3")) 2 (.node (assigningBlock "a" "b" "3"))
          none twoVariables ([] ++ [p]) (inBlocks "a" twoVariables) ∧
        fetch (.text "b") (inBlocks "a" twoVariables) =
          .ok (.text "1") (inBlocks "a" twoVariables) ∧
        ∃ w m', evaluate 3 2 (.node (.assign (.text "b") .null (.text "3"))) none
            (inBlocks "a" twoVariables) = .ok .null m' ∧
          m'.heap.Holds w (.text "3") ∧ m'.lookup "ab" = some w := by
  have htidy : (Value.node (assigningBlock "a" "b" "3")).Tidy false := ⟨by decide, by decide⟩
  have hreaches := @Reaches.block 3 (.assign (.text "b") .null (.text "3")) 1
    (assigningBlock "a" "b" "3") none twoVariables _ _ (inBlocks "a" twoVariables) [] _ [] [] rfl
    rfl rfl .here
  obtain ⟨-, hreads, -, hassigns⟩ := names_glued_in_block htidy admitsArguments_none
    twoVariables_admitted hreaches
  obtain ⟨w, m', hassign, hholds, hlookup, -⟩ :=
    hassigns "b" (.text "3") 1 none (.text "3") _ rfl rfl rfl
  exact ⟨htidy, twoVariables_admitted, _, hreaches, (hreads "b" _).mpr rfl, w, m', hassign, hholds,
    hlookup "ab"⟩

/-- In a block `a`, an assignment to `b` changes the variable `ab`, and `b` is read from there. -/
theorem block_disturbs_variables :
    (¬ ∀ (limit depth : Nat) (e x value : String) (m m' : Machine) (v : Value),
      evaluate limit (depth + 1) (.node (assigningBlock e x value)) none m = .ok v m' →
      ∀ y, Text.lower y ≠ Text.lower x → Text.lower y ≠ Text.lower (e ++ "." ++ x) →
        m'.lookup y = m.lookup y) ∧
    ¬ ∀ (e x : String) (m : Machine) (v : Value),
      fetch (.text x) (inBlocks e m) = .ok v (inBlocks e m) ↔
        fetch (.text x) (inBlocks "" m) = .ok v (inBlocks "" m) := by
  constructor
  · intro h
    have hsame := h 3 2 "a" "b" "3" twoVariables _ .null rfl "ab" (by decide +kernel)
      (by decide +kernel)
    exact absurd (Value.text.inj (Option.some.inj hsame)) (by decide)
  · intro h
    have hsame := (h "a" "b" twoVariables (.text "1")).mp rfl
    rw [fetch_eq_ok_iff] at hsame
    exact absurd (Value.text.inj (Option.some.inj hsame)) (by decide)

end Semantics

end VbaTrace
