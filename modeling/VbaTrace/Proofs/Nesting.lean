import VbaTrace.Proofs.Blocks

/-!
What is open in a frame. A loop pushes a flag and a `With` block adds its name, and both are taken
back where they end, but not where they fail. So while statements of a frame are evaluated, flags
and names are added to those that it had (`Control.Added`), and of these only the flag of the
innermost loop may fall (`Control.Kept`). Popping a loop and closing a block undo what was added
last, whichever loop or block that belongs to (`Control.Added.popped`, `Control.Added.closed`).
Statements keep what was open when they began, and what they add ends with them, unless they fail or
a `For Each` loop among them hides a failure: this is a discipline (`nesting`).
-/

set_option autoImplicit false

namespace VbaTrace

/-! Trees whose blocks have plain names -/

/-- A name that `With` blocks can have, so that the names of nested blocks can be told apart. -/
def isBlockName (s : String) : Bool :=
  !s.isEmpty && !Text.contains "." s

/-- The name of a `With` block. -/
def Node.blockName? : Node → Option String
  | .withBlock (.text s) _ => some s
  | _ => none

mutual

/-- The `With` blocks among the statements have plain names, and if `free` asks for it there is no
`For Each` loop. Nothing is asked of the bodies of procedures, which run in frames of their own. -/
def Value.isTidy (free : Bool) : Value → Bool
  | .list vs => allTidy free vs
  | .tokens t => t.isTidy free
  | .node n => n.isTidy free
  | _ => true

def allTidy (free : Bool) : List Value → Bool
  | [] => true
  | v :: vs => v.isTidy free && allTidy free vs

def Tokens.isTidy (free : Bool) : Tokens → Bool
  | .mk items _ => allTidy free items

def Branch.isTidy (free : Bool) : Branch → Bool
  | .mk guard body => guard.isTidy free && body.isTidy free

def branchesTidy (free : Bool) : List Branch → Bool
  | [] => true
  | b :: bs => b.isTidy free && branchesTidy free bs

def Node.isTidy (free : Bool) : Node → Bool
  | .forEach _ _ body => !free && body.isTidy free
  | .withBlock (.text s) body => isBlockName s && body.isTidy free
  | .withBlock _ _ => false
  | .forLoop _ _ _ _ body | .whileLoop _ _ body | .doLoop _ _ body => body.isTidy free
  | .select subject cases => subject.isTidy free && cases.isTidy free
  | .selectCase guard body => guard.isTidy free && body.isTidy free
  | .conditional _ branches => branchesTidy free branches
  | _ => true

end

section

variable {free : Bool}

theorem allTidy_iff (vs : List Value) :
    allTidy free vs = true ↔ ∀ v ∈ vs, v.isTidy free = true := by
  induction vs with
  | nil => simp [allTidy]
  | cons v vs ih => simp [allTidy, ih]

theorem branchesTidy_iff (bs : List Branch) :
    branchesTidy free bs = true ↔ ∀ b ∈ bs, b.isTidy free = true := by
  induction bs with
  | nil => simp [branchesTidy]
  | cons b bs ih => simp [branchesTidy, ih]

/-- A tidy tree that keeps operands and statements apart. -/
structure Value.Tidy (free : Bool) (v : Value) : Prop where
  fits : v.fits .statement = true
  isTidy : v.isTidy free = true

theorem tidy_withBlock {subject body : Value}
    (h : (Node.withBlock subject body).isTidy free = true) :
    ∃ name, subject = .text name ∧ isBlockName name = true ∧ body.isTidy free = true := by
  cases subject with
  | text name =>
    simp only [Node.isTidy, Bool.and_eq_true] at h
    exact ⟨name, rfl, h⟩
  | _ => exact nomatch h

theorem Value.PartOf.isTidy {v w : Value} (h : w.PartOf v) (hv : v.isTidy free = true) :
    w.isTidy free = true := by
  have hbranch {bs : List Branch} {guard body : Value} (hbs : branchesTidy free bs = true)
      (hb : .mk guard body ∈ bs) : guard.isTidy free = true ∧ body.isTidy free = true := by
    simpa [Branch.isTidy] using (branchesTidy_iff bs).mp hbs _ hb
  cases h with
  | item hw | token hw => exact (allTidy_iff _).mp hv w hw
  | guard hb => exact (hbranch hv hb).1
  | body hb => exact (hbranch hv hb).2
  | withBlock =>
    obtain ⟨_, -, -, hbody⟩ := tidy_withBlock hv
    exact hbody
  | forEach =>
    simp only [Value.isTidy, Node.isTidy, Bool.and_eq_true] at hv
    exact hv.2
  | _ => simp_all [Value.isTidy, Node.isTidy]

end

/-! Control with something added -/

namespace Semantics

theorem length_lt_enterWith {name : String} (h : isBlockName name = true) (outer : String) :
    outer.length < (enterWith outer name).length := by
  have hname : 0 < name.length := by
    simp only [isBlockName, Bool.and_eq_true, Bool.not_eq_true'] at h
    exact Nat.pos_of_ne_zero fun hzero ↦ by simp_all
  unfold enterWith
  split_ifs with hempty
  · rw [String.isEmpty_iff.mp hempty]
    simpa using hname
  · simp only [String.length_append]
    omega

theorem length_le_foldl_enterWith {names : List String}
    (h : ∀ name ∈ names, isBlockName name = true) (outer : String) :
    outer.length ≤ (names.foldl enterWith outer).length := by
  induction names generalizing outer with
  | nil => exact Nat.le_refl _
  | cons name names ih =>
    obtain ⟨hname, hnames⟩ := List.forall_mem_cons.mp h
    exact (length_lt_enterWith hname outer).le.trans (ih hnames _)

end Semantics

namespace Control

/-- Inside a block, which may have a name. -/
def inside (c : Control) (n : Node) : Control :=
  n.blockName?.elim c c.inBlock

/-- Flags of loops, the innermost first, and names of blocks, the outermost first, came on top of
what was there. -/
structure Added (c : Control) (flags : List Bool) (names : List String) (c' : Control) : Prop where
  loops : c'.loops = flags ++ c.loops
  withName : c'.withName = names.foldl Semantics.enterWith c.withName
  plain : ∀ name ∈ names, isBlockName name = true

variable {c d e : Control} {flags flags' : List Bool} {names names' : List String} {free : Bool}

theorem Added.refl (c : Control) : c.Added [] [] c :=
  ⟨rfl, rfl, nofun⟩

theorem Added.trans (hfirst : c.Added flags names d) (hlast : d.Added flags' names' e) :
    c.Added (flags' ++ flags) (names ++ names') e := by
  refine ⟨?_, ?_, List.forall_mem_append.mpr ⟨hfirst.plain, hlast.plain⟩⟩
  · rw [hlast.loops, hfirst.loops, List.append_assoc]
  · rw [hlast.withName, hfirst.withName, List.foldl_append]

/-- What is added can be seen. -/
theorem Added.eq_iff (h : c.Added flags names d) : d = c ↔ flags = [] ∧ names = [] := by
  constructor
  · rintro rfl
    refine ⟨List.self_eq_append_left.mp h.loops, ?_⟩
    cases names with
    | nil => rfl
    | cons name names =>
      obtain ⟨hname, hnames⟩ := List.forall_mem_cons.mp h.plain
      have hlonger := Semantics.length_lt_enterWith hname d.withName
      have hlength := congrArg String.length h.withName
      have hmore := Semantics.length_le_foldl_enterWith hnames (Semantics.enterWith d.withName name)
      rw [List.foldl_cons] at hlength
      omega
  · rintro ⟨rfl, rfl⟩
    obtain ⟨hloops, hname, -⟩ := h
    obtain ⟨loops, withName⟩ := d
    obtain rfl : loops = c.loops := hloops
    obtain rfl : withName = c.withName := hname
    rfl

theorem added_inLoop (c : Control) (flag : Bool) : c.Added [flag] [] (c.inLoop flag) :=
  ⟨rfl, rfl, nofun⟩

theorem added_inBlock (c : Control) {name : String} (hname : isBlockName name = true) :
    c.Added [] [name] (c.inBlock name) :=
  ⟨rfl, rfl, List.forall_mem_singleton.mpr hname⟩

/-- To pop a loop takes back the innermost flag, be it its own or that of a loop which was added
inside of it. -/
theorem Added.popped {flag : Bool} (h : (c.inLoop flag).Added flags names d) :
    d.loops ≠ [] ∧ ∃ flags', flags'.length = flags.length ∧ c.Added flags' names d.popped := by
  have hloops := h.loops
  cases flags with
  | nil =>
    have hpopped : d.popped.loops = c.loops := by
      change d.loops.tail = c.loops
      rw [hloops]
      rfl
    exact ⟨by simp [hloops, inLoop], [], rfl, hpopped, h.withName, h.plain⟩
  | cons first flags =>
    have hpopped : d.popped.loops = (flags ++ [flag]) ++ c.loops := by
      change d.loops.tail = _
      simp [hloops, inLoop]
    exact ⟨by simp [hloops], flags ++ [flag], by simp, hpopped, h.withName, h.plain⟩

/-- To close a block takes back the innermost name. -/
theorem Added.closed {name : String} (hname : isBlockName name = true)
    (h : (c.inBlock name).Added flags names d) :
    ∃ names', names'.length = names.length ∧ c.Added flags names' d.closed := by
  have undotted {s : String} (hs : isBlockName s = true) : Text.contains "." s = false := by
    simp only [isBlockName, Bool.and_eq_true, Bool.not_eq_true'] at hs
    exact hs.2
  rcases List.eq_nil_or_concat names with rfl | ⟨front, last, hnames⟩
  · refine ⟨[], rfl, h.loops, ?_, nofun⟩
    change Semantics.leaveWith d.withName = c.withName
    rw [h.withName]
    exact Semantics.leaveWith_enterWith c.withName (undotted hname)
  · rw [List.concat_eq_append] at hnames
    subst hnames
    obtain ⟨hfront, hlast⟩ := List.forall_mem_append.mp h.plain
    refine ⟨name :: front, by simp, h.loops, ?_, List.forall_mem_cons.mpr ⟨hname, hfront⟩⟩
    change Semantics.leaveWith d.withName = _
    rw [h.withName, List.foldl_append]
    exact Semantics.leaveWith_enterWith _ (undotted (hlast last List.mem_cons_self))

/-- Something came on top, but nothing if `free` says so. -/
def Topped (free : Bool) (c c' : Control) : Prop :=
  ∃ flags names, c.Added flags names c' ∧ (free = true → flags = [] ∧ names = [])

/-- Something came on top, and the innermost loop that was there may have been left before. -/
def Kept (free : Bool) (c c' : Control) : Prop :=
  c.Topped free c' ∨ c.lowered.Topped free c'

theorem Topped.refl (free : Bool) (c : Control) : c.Topped free c :=
  ⟨[], [], .refl c, fun _ ↦ ⟨rfl, rfl⟩⟩

theorem Topped.trans (hfirst : c.Topped free d) (hlast : d.Topped free e) : c.Topped free e := by
  obtain ⟨flags, names, hadded, hfree⟩ := hfirst
  obtain ⟨flags', names', hadded', hfree'⟩ := hlast
  refine ⟨_, _, hadded.trans hadded', fun h ↦ ?_⟩
  simp [hfree h, hfree' h]

theorem Topped.eq (h : c.Topped true d) : d = c := by
  obtain ⟨flags, names, hadded, hfree⟩ := h
  exact hadded.eq_iff.mpr (hfree rfl)

theorem Topped.of_added (h : c.Added flags names d) : c.Topped false d :=
  ⟨flags, names, h, nofun⟩

theorem Topped.to_false (h : c.Topped free d) : c.Topped false d := by
  obtain ⟨flags, names, hadded, -⟩ := h
  exact .of_added hadded

theorem lowered_lowered (c : Control) : c.lowered.lowered = c.lowered := by
  simp [lowered, lowerFirst_lowerFirst]

/-- To leave the innermost loop concerns what came on top, if there is a loop among it. -/
theorem Topped.lowered (h : c.Topped free d) : c.Kept free d.lowered := by
  obtain ⟨flags, names, hadded, hfree⟩ := h
  have hloops := hadded.loops
  cases flags with
  | nil =>
    refine .inr ⟨[], names, ⟨?_, hadded.withName, hadded.plain⟩, hfree⟩
    change lowerFirst d.loops = _
    rw [hloops]
    rfl
  | cons first flags =>
    refine .inl ⟨false :: flags, names, ⟨?_, hadded.withName, hadded.plain⟩, fun h ↦ ?_⟩
    · change lowerFirst d.loops = _
      rw [hloops]
      rfl
    · exact absurd (hfree h).1 (List.cons_ne_nil _ _)

theorem Kept.refl (free : Bool) (c : Control) : c.Kept free c :=
  .inl (.refl free c)

theorem Kept.trans (hfirst : c.Kept free d) (hlast : d.Kept free e) : c.Kept free e := by
  have through {b : Control} (hb : b = c ∨ b = c.lowered) (h : b.Topped free d) :
      c.Kept free e := by
    have hkept : b.Kept free e := by
      rcases hlast with hlast | hlast
      · exact .inl (h.trans hlast)
      · rcases h.lowered with hlow | hlow
        · exact .inl (hlow.trans hlast)
        · exact .inr (hlow.trans hlast)
    rcases hb with rfl | rfl
    · exact hkept
    · rcases hkept with hkept | hkept
      · exact .inr hkept
      · exact .inr (c.lowered_lowered ▸ hkept)
  rcases hfirst with hfirst | hfirst
  · exact through (.inl rfl) hfirst
  · exact through (.inr rfl) hfirst

theorem Kept.of_added (h : c.Added flags names d) : c.Kept false d :=
  .inl (.of_added h)

theorem Kept.to_false (h : c.Kept free d) : c.Kept false d :=
  h.imp Topped.to_false Topped.to_false

theorem Kept.eq (h : c.Kept true d) : d = c ∨ d = c.lowered :=
  h.imp Topped.eq Topped.eq

theorem kept_lowered (free : Bool) (c : Control) : c.Kept free c.lowered :=
  .inr (.refl free _)

theorem Kept.eq_inLoop {flag : Bool} (h : (c.inLoop flag).Kept true d) :
    ∃ now, d = c.inLoop now := by
  rcases h.eq with rfl | rfl
  · exact ⟨flag, rfl⟩
  · exact ⟨false, rfl⟩

theorem lowered_inside (c : Control) (n : Node) : (c.inside n).lowered = c.lowered.inside n := by
  unfold inside
  cases n.blockName? <;> rfl

theorem Kept.popped {flag : Bool} (h : (c.inLoop flag).Kept free d) : c.Topped free d.popped := by
  have hcases : ∃ flag, (c.inLoop flag).Topped free d := by
    rcases h with h | h
    · exact ⟨flag, h⟩
    · exact ⟨false, h⟩
  obtain ⟨flag, flags, names, hadded, hfree⟩ := hcases
  obtain ⟨-, flags', hlength, hpopped⟩ := hadded.popped
  refine ⟨flags', names, hpopped, fun h ↦ ⟨?_, (hfree h).2⟩⟩
  rw [(hfree h).1] at hlength
  exact List.length_eq_zero_iff.mp hlength

theorem Kept.closed {name : String} (hname : isBlockName name = true)
    (h : (c.inBlock name).Kept free d) : c.Kept free d.closed := by
  have closed {b : Control} (h : (b.inBlock name).Topped free d) : b.Topped free d.closed := by
    obtain ⟨flags, names, hadded, hfree⟩ := h
    obtain ⟨names', hlength, hclosed⟩ := hadded.closed hname
    refine ⟨flags, names', hclosed, fun h ↦ ⟨(hfree h).1, ?_⟩⟩
    rw [(hfree h).2] at hlength
    exact List.length_eq_zero_iff.mp hlength
  exact h.imp closed closed

end Control

/-! The discipline -/

/-- What was open stays open. What statements add ends with them if `free` says so, but not where
they fail. -/
def nesting (free : Bool) : Discipline where
  Allows n := (n.isEach = true → free = false) ∧ ∀ subject body, n = .withBlock subject body →
    ∃ name, subject = .text name ∧ isBlockName name = true
  Ends f g := f.control.Kept free g.control
  Restores f g := f.control.Topped free g.control
  Fails f g := f.control.Kept false g.control
  allows {n} h := by
    cases n with
    | forEach | withBlock => exact Bool.noConfusion h
    | _ => exact ⟨nofun, nofun⟩
  refl f := .refl free f.control
  trans := .trans
  fails_refl f := .refl false f.control
  trans_fails hfirst hlast := hfirst.to_false.trans hlast
  lower f := f.control.kept_lowered free
  leave f := .refl free f.control
  restores := .inl
  pop h := h.popped
  in_loop {f g} h := (Control.Kept.of_added (f.control.added_inLoop true)).trans h
  hides hn heach h := (hn.1 heach).symm ▸ h
  close hn hname h := by
    obtain ⟨_, rfl, hplain⟩ := hn.2 _ _ rfl
    obtain ⟨_, hwritten⟩ := hname
    cases hwritten
    exact h.closed hplain
  in_block {_ _ _ f _} hn hname h := by
    obtain ⟨_, rfl, hplain⟩ := hn.2 _ _ rfl
    obtain ⟨_, hwritten⟩ := hname
    cases hwritten
    exact (Control.Kept.of_added (f.control.added_inBlock hplain)).trans h

/-- To open an allowed block adds its name, if it has one. -/
theorem Control.added_inside {free : Bool} (c : Control) {n : Node} (hn : (nesting free).Allows n) :
    c.Added [] n.blockName?.toList (c.inside n) := by
  cases n with
  | withBlock =>
    obtain ⟨_, rfl, hplain⟩ := hn.2 _ _ rfl
    exact c.added_inBlock hplain
  | _ => exact .refl c

theorem Semantics.Opens.control_eq {free : Bool} {n : Node} (hn : (nesting free).Allows n)
    {f g : Flow} (h : Opens n f g) : g.control = f.control.inside n := by
  cases n with
  | withBlock =>
    obtain ⟨_, rfl, -⟩ := hn.2 _ _ rfl
    obtain ⟨_, ⟨_, hwritten⟩, rfl⟩ := h
    cases hwritten
    rfl
  | _ => exact congrArg Flow.control h

theorem Value.Tidy.obeys {free : Bool} {v : Value} (hv : v.Tidy free) : (nesting free).Obeys v := by
  refine .of_kind (K := fun v ↦ v.isTidy free = true) (fun hv h ↦ h.isTidy hv) (fun n hn ↦ ?_)
    hv.fits hv.isTidy
  cases n with
  | forEach =>
    simp only [Value.isTidy, Node.isTidy, Bool.and_eq_true, Bool.not_eq_true'] at hn
    exact ⟨fun _ ↦ hn.1, nofun⟩
  | withBlock =>
    obtain ⟨name, hname, hplain, -⟩ := tidy_withBlock hn
    exact ⟨nofun, fun _ _ h ↦ by cases h; exact ⟨name, hname, hplain⟩⟩
  | _ => exact ⟨nofun, nofun⟩

end VbaTrace
