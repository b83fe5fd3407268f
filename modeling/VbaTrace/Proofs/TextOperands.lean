import VbaTrace.Proofs.Names
import VbaTrace.Proofs.Searching

/-!
Texts as operands. A text without a dot stands for itself wherever it is evaluated. A text with a
dot may be taken for a name: a member that holds encoded data or a selected item is looked up under
the name of the member that holds its value, and any other such text under its own name and then
under what stands behind its last dot (`soughtNames`).

Where none of these names stands for anything, the text is given back (`evalText_of_unknown`).
Where one does, looking it up still changes nothing; only what stands behind the last dot is run, and
only when the text as a whole stands for nothing (`lastRun?`). So a text is given back in every
machine exactly when it has no dot in it (`evalText_eq_self_iff`).
-/

set_option autoImplicit false

namespace VbaTrace

/-! Dots in lower case -/

namespace Text

theorem toLower_eq_dot {c : Char} (hc : c.toNat < 128) (h : c.toLower = '.') : c = '.' := by
  have hascii : ∀ n < 128, (Char.ofNat n).toLower = '.' → Char.ofNat n = '.' := by decide +kernel
  simpa using hascii c.toNat hc (by simpa using h)

/-- No character outside of ASCII becomes a dot in lower case. -/
theorem firstShift_ne_dot {n : Nat} (hn : 128 ≤ n) : firstShift lowerShifts n ≠ 46 := by
  have hshifts : ∀ s ∈ lowerShifts, 46 < (s.first : Int) + s.delta := by decide +kernel
  unfold firstShift
  cases hfound : lowerShifts.findSome? fun s ↦ s.moved? n with
  | none =>
    rw [Option.getD_none]
    omega
  | some k =>
    obtain ⟨s, hs, hmoved⟩ := Array.exists_of_findSome?_eq_some hfound
    unfold CaseShift.moved? at hmoved
    split_ifs at hmoved with hrange
    have hfirst : s.first ≤ n := by
      simp only [Bool.and_eq_true, decide_eq_true_eq] at hrange
      exact hrange.1.1
    have hshift := hshifts s hs
    have hk := Option.some.inj hmoved
    rw [Option.getD_some, ← hk]
    omega

theorem ofNat_eq_dot {n : Nat} (h : Char.ofNat n = '.') : n = 46 := by
  by_cases hvalid : n.isValidChar
  · have hvalue : Char.ofNat n = Char.ofNatAux n hvalid := dif_pos hvalid
    rw [hvalue] at h
    exact congrArg Char.toNat h
  · have hvalue : Char.ofNat n = Char.ofNat 0 := dif_neg hvalid
    rw [hvalue] at h
    exact absurd h (by decide)

theorem dot_mem_lowerChar_iff (before : List Char) (c : Char) (after : List Char) :
    '.' ∈ lowerChar before c after ↔ c = '.' := by
  constructor
  · intro h
    unfold lowerChar at h
    dsimp only at h
    split_ifs at h with hascii hsigma hfinal hdotted
    · exact toLower_eq_dot hascii (List.mem_singleton.mp h).symm
    · exact absurd h (by decide)
    · exact absurd h (by decide)
    · exact absurd h (by decide)
    · have hshift := firstShift_ne_dot (Nat.le_of_not_lt hascii)
      exact absurd (ofNat_eq_dot (List.mem_singleton.mp h).symm) hshift
  · rintro rfl
    simp [lowerChar]

theorem dot_mem_lowerFrom_iff (before cs : List Char) :
    '.' ∈ lowerFrom before cs ↔ '.' ∈ cs := by
  induction cs generalizing before with
  | nil => rfl
  | cons c cs ih =>
    rw [lowerFrom, List.mem_append, dot_mem_lowerChar_iff, ih, List.mem_cons]
    exact or_congr_left eq_comm

theorem contains_dot_lower_iff (s : String) :
    contains "." (lower s) = true ↔ '.' ∈ s.toList := by
  have hlower : (lower s).toList = lowerChars s.toList := String.toList_ofList
  rw [contains, occursIn_iff_infix, hlower]
  exact (List.singleton_infix_iff _ _).trans (dot_mem_lowerFrom_iff [] s.toList)

/-- Where there is no dot, nothing that begins with one is found. -/
theorem contains_of_undotted {part s : String} (hpart : '.' ∈ part.toList)
    (hs : '.' ∉ s.toList) : contains part (lower s) = false := by
  rw [Bool.eq_false_iff]
  intro h
  rw [contains, occursIn_iff_infix] at h
  refine hs ((contains_dot_lower_iff s).mp ?_)
  rw [contains, occursIn_iff_infix]
  exact (List.singleton_infix_iff _ _).mpr (h.subset hpart)

end Text

/-! Names in texts -/

namespace Semantics

/-- The text has a dot, and is neither that of a member with encoded data nor that of a selected
item. -/
def isDotted (s : String) : Bool :=
  !Text.contains ".nodetypedvalue" (Text.lower s) &&
    !Text.contains ".selecteditem" (Text.lower s) && Text.contains "." (Text.lower s)

/-- The names under which a text is looked up, in this order. -/
def soughtNames (s : String) : List String :=
  if Text.contains ".nodetypedvalue" (Text.lower s) then
    [Text.replace ".nodetypedvalue" ".text" (Text.lower s)]
  else if Text.contains ".selecteditem" (Text.lower s) then
    [Text.replace ".selecteditem" ".rapt.value" (Text.lower s)]
  else if Text.contains "." (Text.lower s) then
    [Text.lower s, Text.afterLast "." (Text.lower s)]
  else []

/-- The text asks for a property of the document. -/
def asksForProperty (s : String) : Bool :=
  isDotted s && Text.startsWith itemCall (Text.lower s)

/-- What evaluating the text runs: what stands behind its last dot, where the text as a whole stands
for nothing. -/
def lastRun? (s : String) (m : Machine) : Option Value :=
  if isDotted s && (m.resolve? (Text.lower s)).isNone then
    m.resolve? (Text.afterLast "." (Text.lower s))
  else none

section

variable {evaluate : Evaluator} {s name : String} {m : Machine} {v : Value}

theorem fetchOr_of_some (h : m.resolve? name = some v) (otherwise : Eval Value) :
    fetchOr name otherwise m = .ok v m :=
  Eval.handle_of_ok (fetch_of_some h) _ _

theorem fetchOr_of_none (h : m.resolve? name = none) (otherwise : Eval Value) :
    fetchOr name otherwise m = otherwise m := by
  unfold fetchOr
  rw [Eval.handle_of_error (fetch_of_none h)]
  rfl

/-- The attempt to run what stands behind the last dot. -/
def runLast (evaluate : Evaluator) (s : String) : Eval (Option Value) :=
  Eval.handle
    (do return some (← evaluate (← fetch (.text (Text.afterLast "." (Text.lower s)))) none))
    Fault.isOrdinary fun _ ↦ return none

/-- What a text is worth when nothing of its name was found. -/
def unnamedText (s : String) : Eval Value :=
  if Text.startsWith itemCall (Text.lower s) then itemProperty (Text.lower s) else return .text s

theorem dottedText_of_none (hwhole : m.resolve? (Text.lower s) = none) :
    dottedText evaluate s m =
      (runLast evaluate s >>= fun found ↦ found.elim (unnamedText s) pure) m := by
  refine (fetchOr_of_none hwhole _).trans ?_
  refine congrFun (congrArg (runLast evaluate s >>= ·) (funext fun found ↦ ?_)) m
  cases found with
  | none => dsimp only [Option.elim, unnamedText]
  | some v => rfl

/-- Where nothing is known of a text, there is nothing to run. -/
theorem dottedText_of_unknown (hwhole : m.resolve? (Text.lower s) = none)
    (hlast : m.resolve? (Text.afterLast "." (Text.lower s)) = none) :
    dottedText evaluate s m = unnamedText s m := by
  have hnothing : runLast evaluate s m = .ok none m := by
    unfold runLast
    rw [Eval.handle_of_error (Eval.bind_of_error (fetch_of_none hlast) _)]
    exact if_pos rfl
  rw [dottedText_of_none hwhole, Eval.bind_of_ok hnothing, Option.elim_none]

theorem evalText_of_isDotted (h : isDotted s = true) :
    evalText evaluate s = dottedText evaluate s := by
  simp only [isDotted, Bool.and_eq_true, Bool.not_eq_true'] at h
  obtain ⟨⟨hdata, hitem⟩, hdot⟩ := h
  simp only [evalText, hdata, hitem, hdot, Bool.false_eq_true, if_false, if_true]

theorem final_unnamedText (s : String) (m : Machine) : (unnamedText s).final m = m := by
  unfold unnamedText
  split_ifs
  · unfold itemProperty
    rw [Eval.final_bind_of_still]
    · rfl
    · intro m₁ m₂
      cases m₁.itemProperties with
      | none => rfl
      | some properties =>
        dsimp only
        cases properties.find? (itemName (Text.lower s)) with
        | none => rfl
        | some v =>
          exact (Eval.final_bind_of_still (ensureWritable v) (fun _ _ ↦ rfl) m₂).trans
            (final_ensureWritable v m₂)
  · rfl

/-- A text that is no name to be run is only looked up. -/
theorem final_evalText_of_not_isDotted (h : isDotted s = false) :
    (evalText evaluate s).final m = m := by
  unfold evalText
  dsimp only
  split_ifs with hdata hitem hdot
  · rw [Eval.final_handle, Eval.final_bind_of_still _ fun _ _ ↦ rfl, final_fetch]
    exact ite_self m
  · unfold fetchOr
    rw [Eval.final_handle, final_fetch]
    exact ite_self m
  · simp [isDotted, hdata, hitem, hdot] at h
  · rfl

theorem evalText_congr_of_not_isDotted (h : isDotted s = false) (other : Evaluator) :
    evalText other s = evalText evaluate s := by
  unfold evalText
  dsimp only
  split_ifs with hdata hitem hdot
  · rfl
  · rfl
  · simp [isDotted, hdata, hitem, hdot] at h
  · rfl

theorem evalText_of_lastRun?_eq_none (h : lastRun? s m = none) :
    (evalText evaluate s).final m = m ∧ ∀ other, evalText other s m = evalText evaluate s m := by
  by_cases hdotted : isDotted s = true
  · rw [evalText_of_isDotted hdotted]
    cases hwhole : m.resolve? (Text.lower s) with
    | some v =>
      have hfound : ∀ E, dottedText E s m = .ok v m := fun E ↦ fetchOr_of_some hwhole _
      refine ⟨Eval.final_of_ok (hfound evaluate), fun other ↦ ?_⟩
      rw [evalText_of_isDotted hdotted, hfound, hfound]
    | none =>
      have hlast : m.resolve? (Text.afterLast "." (Text.lower s)) = none := by
        simpa [lastRun?, hdotted, hwhole] using h
      have hunnamed : ∀ E, dottedText E s m = unnamedText s m := fun E ↦
        dottedText_of_unknown hwhole hlast
      refine ⟨(Eval.final_congr (hunnamed evaluate)).trans (final_unnamedText s m), fun other ↦ ?_⟩
      rw [evalText_of_isDotted hdotted, hunnamed, hunnamed]
  · have hplain := Bool.eq_false_iff.mpr hdotted
    exact ⟨final_evalText_of_not_isDotted hplain,
      fun other ↦ congrFun (evalText_congr_of_not_isDotted hplain other) m⟩

theorem lastRun?_eq_some (h : lastRun? s m = some v) :
    isDotted s = true ∧ m.resolve? (Text.lower s) = none ∧
      m.resolve? (Text.afterLast "." (Text.lower s)) = some v := by
  unfold lastRun? at h
  split_ifs at h with hruns
  rw [Bool.and_eq_true, Option.isNone_iff_eq_none] at hruns
  exact ⟨hruns.1, hruns.2, h⟩

/-- What is run leaves the machine as it leaves it alone. -/
theorem final_evalText_of_lastRun? (h : lastRun? s m = some v) :
    (evalText evaluate s).final m = (evaluate v none).final m := by
  obtain ⟨hdotted, hwhole, hlast⟩ := lastRun?_eq_some h
  have hrun : (runLast evaluate s).final m = (evaluate v none).final m := by
    unfold runLast
    rw [Eval.final_handle, Eval.final_pure, ite_self]
    refine (Eval.final_congr (Eval.bind_of_ok (fetch_of_some hlast) _)).trans ?_
    exact Eval.final_bind_of_still (evaluate v none) (fun _ _ ↦ rfl) m
  rw [evalText_of_isDotted hdotted, Eval.final_congr (dottedText_of_none hwhole),
    Eval.final_bind_of_still _ _ m, hrun]
  intro found m₁
  cases found with
  | none =>
    rw [Option.elim_none]
    exact final_unnamedText s m₁
  | some w => rfl

/-- A text stands for itself where none of the names that it is looked up under stands for
anything. -/
theorem evalText_of_unknown (hnames : ∀ name ∈ soughtNames s, m.resolve? name = none)
    (hproperty : asksForProperty s = false) : evalText evaluate s m = .ok (.text s) m := by
  unfold soughtNames at hnames
  unfold evalText
  split_ifs at hnames ⊢ with hdata hitem hdot
  · have hnone := hnames _ (List.mem_singleton_self _)
    rw [Eval.handle_of_error (Eval.bind_of_error (fetch_of_none hnone) _)]
    exact if_pos rfl
  · exact fetchOr_of_none (hnames _ (List.mem_singleton_self _)) _
  · have hitemless : Text.startsWith itemCall (Text.lower s) = false := by
      simpa [asksForProperty, isDotted, hdata, hitem, hdot] using hproperty
    rw [dottedText_of_unknown (hnames _ (by simp)) (hnames _ (by simp)), unnamedText, hitemless]
    rfl
  · rfl

/-- The first name that a text is looked up under decides, when it stands for a number. -/
theorem evalText_of_int {n : Int} {others : List String} (hnames : soughtNames s = name :: others)
    (h : m.resolve? name = some (.int n)) (evaluate : Evaluator) :
    evalText evaluate s m = .ok (.int n) m := by
  unfold soughtNames at hnames
  unfold evalText
  split_ifs at hnames ⊢ with hdata hitem hdot
  · rw [(List.cons.inj hnames).1]
    have hdecoded : (do return decodedText (← fetch (.text name)) : Eval Value) m =
        .ok (.int n) m := Eval.bind_of_ok (fetch_of_some h) _
    exact Eval.handle_of_ok hdecoded _ _
  · rw [(List.cons.inj hnames).1]
    exact fetchOr_of_some h _
  · rw [← (List.cons.inj hnames).1] at h
    exact fetchOr_of_some h _

theorem soughtNames_eq_nil_iff (s : String) : soughtNames s = [] ↔ '.' ∉ s.toList := by
  constructor
  · intro hnone hdot
    have hcontains := (Text.contains_dot_lower_iff s).mpr hdot
    unfold soughtNames at hnone
    rw [if_pos hcontains] at hnone
    split_ifs at hnone
  · intro hs
    unfold soughtNames
    rw [Text.contains_of_undotted (by decide) hs, Text.contains_of_undotted (by decide) hs,
      Text.contains_of_undotted (by decide) hs]
    rfl

/-- A machine in which a name is a variable with the value zero. -/
def holdingZero (name : String) : Machine :=
  { frame := { locals := ({} : Table Value).put (Text.lower name) (.int 0) } }

theorem resolve?_holdingZero (name : String) :
    (holdingZero name).resolve? name = some (.int 0) := by
  have hlookup : (holdingZero name).lookup name = some (.int 0) := by
    rw [lookup_eq, holdingZero, Table.find?_put, beq_self_eq_true, if_pos rfl,
      Option.some_or]
  have hname : (holdingZero name).frame.withName ++ name = name := String.empty_append
  rw [Machine.resolve?, hname, hlookup, Option.some_or]

theorem evalText_eq_self_iff (evaluate : Evaluator) (s : String) :
    (∀ m : Machine, evalText evaluate s m = .ok (.text s) m) ↔ '.' ∉ s.toList := by
  constructor
  · intro hself
    rw [← soughtNames_eq_nil_iff]
    cases hnames : soughtNames s with
    | nil => rfl
    | cons name others =>
      have hzero := evalText_of_int hnames (resolve?_holdingZero name) evaluate
      have hvalue := hzero.symm.trans (hself _)
      cases hvalue
  · intro hs m
    have hdot : Text.contains "." (Text.lower s) = false :=
      Text.contains_of_undotted (by decide) hs
    have hproperty : asksForProperty s = false := by
      rw [asksForProperty, isDotted, hdot, Bool.and_false, Bool.false_and]
    refine evalText_of_unknown (fun name hname ↦ ?_) hproperty
    rw [(soughtNames_eq_nil_iff s).mpr hs] at hname
    exact absurd hname List.not_mem_nil

end

/-- A text is given back unchanged, with nothing run and nothing changed, in every machine exactly
when it has no dot. One with a dot is still given back where none of the names that it may be taken
for stands for anything and it does not ask for a property of the document. All other texts are only
looked up, and leave the machine as it was, unless there is something to run behind the last dot,
which then leaves what it leaves when it is run alone. -/
theorem text_operand_kept (evaluate : Evaluator) (s : String) :
    ((∀ m : Machine, evalOperand evaluate (.text s) m = .ok (.text s) m) ↔ '.' ∉ s.toList) ∧
      ∀ m : Machine,
        ((∀ name ∈ soughtNames s, m.resolve? name = none) → asksForProperty s = false →
          evalOperand evaluate (.text s) m = .ok (.text s) m) ∧
        (lastRun? s m = none → (evalOperand evaluate (.text s)).final m = m ∧
          ∀ other, evalOperand other (.text s) m = evalOperand evaluate (.text s) m) ∧
        ∀ v, lastRun? s m = some v →
          (evalOperand evaluate (.text s)).final m = (evaluate v none).final m := by
  have htext : ∀ evaluate, evalOperand evaluate (.text s) = evalText evaluate s := fun _ ↦ rfl
  simp only [htext]
  exact ⟨evalText_eq_self_iff evaluate s, fun _ ↦ ⟨evalText_of_unknown,
    evalText_of_lastRun?_eq_none, fun _ ↦ final_evalText_of_lastRun?⟩⟩

/-- An address stays what it is where neither it nor its last part names anything. -/
theorem text_operand_kept_address :
    (∀ name ∈ soughtNames "http://a.com", ({} : Machine).resolve? name = none) ∧
      asksForProperty "http://a.com" = false ∧ '.' ∈ "http://a.com".toList ∧
      evalOperand run (.text "http://a.com") {} = .ok (.text "http://a.com") {} := by
  have hnames : ∀ name ∈ soughtNames "http://a.com", ({} : Machine).resolve? name = none := by
    decide +kernel
  have hproperty : asksForProperty "http://a.com" = false := by decide +kernel
  exact ⟨hnames, hproperty, by decide,
    ((text_operand_kept run "http://a.com").2 {}).1 hnames hproperty⟩

/-- A function that shows a message, under a name that an address may end in. -/
def holdingCom : Machine :=
  { globals := { others := ⟨[("com", .node (.function (.text "com") .empty
      (.tokens (.ofList [.node (.callStatement (.text "MsgBox") (.tokens (.one (.text "hi")))),
        .node (.assign (.text "com") .null (.int 1))])) .empty .null))]⟩ } }

/-- In this machine the address is a call. -/
theorem text_operand_calls_function :
    ¬ ∀ (s : String) (m : Machine), evalOperand run (.text s) m = .ok (.text s) m := by
  intro h
  have hsame := Eval.final_of_ok (h "http://a.com" holdingCom)
  have hsizes := congrArg (fun m ↦ m.actions.size) hsame
  revert hsizes
  decide +kernel

end Semantics

end VbaTrace
