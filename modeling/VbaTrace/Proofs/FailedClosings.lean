import VbaTrace.Proofs.FileContents

/-!
Closings that fail. A call takes a file (`Machine.toClose?`) when its one argument is the number of
an open file whose name can be recorded. The file is then moved to the closed ones before its contents
become bytes and its name a part of the report. Every item that is no byte, and every name that is no
text, makes the call fail behind that point (`OpenFile.closingFault?`), with the file closed and
nothing reported. All other failures leave the machine alone (`Library.closing`).

So the closed files of a run are those that its calls took, whether they failed or not, and the
reports are those of the files that can be reported (`ClosingRun.closed_eq`, `ClosingRun.drops_eq`).
-/

set_option autoImplicit false

namespace VbaTrace

/-! Bytes -/

namespace Value

/-- The number that the value is fits into a byte. -/
def isByte (v : Value) : Bool := v.asInt?.any fun n ↦ 0 ≤ n && n ≤ 255

/-- The fault of a value that is no byte. -/
def byteFault (v : Value) : Fault := if v.isInt then .overflow else .wrongType

end Value

namespace Library

variable {contents : List Value} {v : Value}

theorem byteOf_of_isByte (h : v.isByte = true) : ∃ b, byteOf v = .ok b := by
  obtain ⟨n, hn, hbounds⟩ := (Option.any_eq_true _ _).mp h
  rw [byteOf, hn]
  exact ⟨_, if_pos hbounds⟩

theorem byteOf_of_not_isByte (h : v.isByte = false) : byteOf v = .error v.byteFault := by
  rw [byteOf, Value.byteFault, Value.isInt]
  cases hn : v.asInt? with
  | none => rfl
  | some n =>
    rw [Value.isByte, hn, Option.any_some] at h
    exact if_neg (Bool.eq_false_iff.mp h)

theorem mapM_byteOf_of_all (h : contents.all Value.isByte = true) :
    contents.mapM byteOf = .ok (fileBytes contents) := by
  suffices hbytes : ∃ bytes, contents.mapM byteOf = .ok bytes by
    obtain ⟨bytes, hbytes⟩ := hbytes
    rw [hbytes, mapM_byteOf hbytes]
  induction contents with
  | nil => exact ⟨[], rfl⟩
  | cons v vs ih =>
    rw [List.all_cons, Bool.and_eq_true] at h
    obtain ⟨b, hb⟩ := byteOf_of_isByte h.1
    obtain ⟨bs, hbs⟩ := ih h.2
    rw [List.mapM_cons, hb, hbs]
    exact ⟨b :: bs, rfl⟩

/-- The first item that is no byte decides. -/
theorem mapM_byteOf_of_find? (h : contents.find? (!·.isByte) = some v) :
    contents.mapM byteOf = .error v.byteFault := by
  induction contents with
  | nil => cases h
  | cons w vs ih =>
    rw [List.mapM_cons]
    cases hw : w.isByte with
    | true =>
      obtain ⟨b, hb⟩ := byteOf_of_isByte hw
      rw [List.find?_cons, hw] at h
      rw [hb, ih h]
      rfl
    | false =>
      rw [List.find?_cons, hw] at h
      rw [← Option.some.inj h, byteOf_of_not_isByte hw]
      rfl

end Library

/-! Files and the calls that take them -/

namespace OpenFile

/-- The fault with which the closing of a file ends after it has been recorded: an item is no byte, or
else the name is no text. -/
def closingFault? (f : OpenFile) : Option Fault :=
  match f.contents.find? (!·.isByte) with
  | some v => some v.byteFault
  | none => if f.name.isText then none else some .wrongType

/-- The report of a file that has a text for its name and holds bytes. -/
def report? (f : OpenFile) : Option Action :=
  match f.name with
  | .text name =>
    if f.contents.all Value.isByte then some (dropReport name (fileBytes f.contents)) else none
  | _ => none

theorem find?_eq_none_iff (f : OpenFile) :
    f.contents.find? (!·.isByte) = none ↔ f.contents.all Value.isByte = true := by
  simp

/-- What ends without a fault can be reported. -/
theorem closingFault?_eq_none_iff {f : OpenFile} :
    f.closingFault? = none ↔
      ∃ name, f.name = .text name ∧ f.contents.all Value.isByte = true := by
  unfold closingFault?
  cases hfind : f.contents.find? (!·.isByte) with
  | some v =>
    have hall : ¬f.contents.all Value.isByte = true := by
      rw [← find?_eq_none_iff, hfind]
      exact Option.some_ne_none v
    exact iff_of_false (Option.some_ne_none _) fun ⟨_, _, hbytes⟩ ↦ hall hbytes
  | none =>
    have hall := f.find?_eq_none_iff.mp hfind
    cases hname : f.name <;> simp [Value.isText, hall]

theorem report?_eq_none_iff {f : OpenFile} : f.report? = none ↔ f.closingFault? ≠ none := by
  rw [ne_eq, closingFault?_eq_none_iff, report?]
  cases hname : f.name with
  | text name => by_cases hall : f.contents.all Value.isByte = true <;> simp [hall]
  | _ => simp

end OpenFile

namespace Machine

/-- The file that a call takes from the open ones, with its number. A file with a list for its name
is not taken. -/
def toClose? (m : Machine) : Arguments → Option (String × OpenFile)
  | some [.text key] =>
    if Text.startsWith "#" key then
      ((m.frame.openFiles.find? key).filter fun f ↦ !f.name.isList).map (key, ·)
    else none
  | _ => none

/-- The file is moved from the open ones to the closed ones. -/
def moving (m : Machine) (key : String) (f : OpenFile) : Machine :=
  { m with
    frame :=
      { m.frame with
        closedFiles := Library.addClosed ⟨f.name, f.contents⟩ m.frame.closedFiles
        openFiles := m.frame.openFiles.erase key } }

/-- The tables of files are the same. -/
structure SameTables (m m' : Machine) : Prop where
  open_eq : m'.frame.openFiles = m.frame.openFiles
  closed_eq : m'.frame.closedFiles = m.frame.closedFiles

variable {m : Machine} {args : Arguments} {key : String} {f : OpenFile}

theorem toClose?_eq_some_iff : m.toClose? args = some (key, f) ↔
    args = some [.text key] ∧ Text.startsWith "#" key = true ∧
      m.frame.openFiles.find? key = some f ∧ f.name.isList = false := by
  unfold toClose?
  split
  · next other =>
    by_cases hmarked : Text.startsWith "#" other = true
    · rw [if_pos hmarked]
      simp only [Option.map_eq_some_iff, Option.filter_eq_some_iff, Bool.not_eq_true', Prod.mk.injEq,
        Option.some.injEq, List.cons.injEq, Value.text.injEq, and_true]
      constructor
      · rintro ⟨g, ⟨hopen, hname⟩, rfl, rfl⟩
        exact ⟨rfl, hmarked, hopen, hname⟩
      · rintro ⟨rfl, -, hopen, hname⟩
        exact ⟨f, ⟨hopen, hname⟩, rfl, rfl⟩
    · rw [if_neg hmarked]
      refine iff_of_false (Option.some_ne_none _).symm ?_
      rintro ⟨heq, hother, -⟩
      cases heq
      exact hmarked hother
  · next hargs =>
    exact iff_of_false (Option.some_ne_none _).symm fun h ↦ hargs key h.1

/-- A file that has been moved is no longer open. -/
theorem not_sameTables_moving (hopen : m.frame.openFiles.find? key = some f) (g : OpenFile) :
    ¬m.SameTables (m.moving key g) := by
  intro hsame
  have herased : (m.frame.openFiles.erase key).find? key = none := by
    rw [Table.find?_erase, beq_self_eq_true, if_pos rfl]
  have htable : m.frame.openFiles.erase key = m.frame.openFiles := hsame.open_eq
  rw [htable, hopen] at herased
  exact Option.some_ne_none f herased

end Machine

/-! One call -/

namespace Library

variable {evaluate : Evaluator} {m : Machine} {args : Arguments} {key : String} {f : OpenFile}

/-- The file has been moved when the call fails. -/
theorem close_of_fault (evaluate : Evaluator) {e : Fault} (htaken : m.toClose? args = some (key, f))
    (hfault : f.closingFault? = some e) :
    Routine.close.call evaluate args m = .error e (m.moving key f) := by
  obtain ⟨rfl, hmarked, hopen, hlist⟩ := Machine.toClose?_eq_some_iff.mp htaken
  have hfile : openFile m (.text key) = .ok (key, f) := by rw [openFile, hopen]
  change close [.text key] m = _
  unfold close
  dsimp only
  rw [Eval.bind_of_ok (show opened (.text key) m = .ok (.text key) m from rfl)]
  dsimp only
  rw [hmarked, Bool.not_true, if_neg Bool.false_ne_true,
    Eval.bind_of_ok (show (get : Eval Machine) m = .ok m m from rfl), hfile,
    Eval.bind_of_ok (show Eval.ofExcept (.ok (key, f)) m = .ok (key, f) m from rfl)]
  dsimp only
  rw [hlist, if_neg Bool.false_ne_true, Eval.bind_of_ok (modifyFrame_eq ..)]
  unfold OpenFile.closingFault? at hfault
  cases hfind : f.contents.find? (!·.isByte) with
  | some v =>
    rw [hfind] at hfault
    cases hfault
    rw [mapM_byteOf_of_find? hfind]
    rfl
  | none =>
    rw [hfind] at hfault
    rw [mapM_byteOf_of_all (f.find?_eq_none_iff.mp hfind)]
    obtain ⟨name, contents⟩ := f
    cases name with
    | text name => cases hfault
    | _ =>
      cases hfault
      rfl

theorem close_of_all_bytes (evaluate : Evaluator) {name : String} {contents : List Value}
    (htaken : m.toClose? args = some (key, ⟨.text name, contents⟩))
    (hall : contents.all Value.isByte = true) :
    Routine.close.call evaluate args m = .ok .null (m.closing key name contents) := by
  obtain ⟨rfl, hmarked, hopen, -⟩ := Machine.toClose?_eq_some_iff.mp htaken
  exact close_of_open hmarked hopen (mapM_byteOf_of_all hall)

/-- A call that takes no file leaves the machine alone. -/
theorem final_close_of_none (hnone : m.toClose? args = none) :
    (Routine.close.call evaluate args).final m = m := by
  rcases args with _ | _ | ⟨number, _ | ⟨second, others⟩⟩
  · rfl
  · rfl
  · change (close [number]).final m = m
    unfold close
    dsimp only
    cases number with
    | text key =>
      have hnumber : opened (.text key) m = .ok (.text key) m := rfl
      rw [Eval.final_congr (Eval.bind_of_ok hnumber _)]
      dsimp only
      cases hmarked : Text.startsWith "#" key with
      | false => rfl
      | true =>
        rw [Bool.not_true, if_neg Bool.false_ne_true,
          Eval.final_congr (Eval.bind_of_ok (show (get : Eval Machine) m = .ok m m from rfl) _)]
        cases hopen : m.frame.openFiles.find? key with
        | none =>
          have hfile : openFile m (.text key) = .error .missingEntry := by rw [openFile, hopen]
          rw [hfile]
          rfl
        | some f =>
          have hfile : openFile m (.text key) = .ok (key, f) := by rw [openFile, hopen]
          have hlist : f.name.isList = true := by
            by_contra hname
            have htaken := Machine.toClose?_eq_some_iff.mpr
              ⟨rfl, hmarked, hopen, Bool.eq_false_iff.mpr hname⟩
            exact Option.some_ne_none _ (htaken.symm.trans hnone)
          rw [hfile, Eval.final_congr (Eval.bind_of_ok
            (show Eval.ofExcept (.ok (key, f)) m = .ok (key, f) m from rfl) _)]
          dsimp only
          rw [if_pos hlist]
          rfl
    | _ => rfl
  · rfl

/-- All that a call can do. -/
inductive Closing (evaluate : Evaluator) (m : Machine) (args : Arguments) : Prop
  | idle : m.toClose? args = none → (Routine.close.call evaluate args).final m = m →
    Closing evaluate m args
  | failed {key : String} {f : OpenFile} {e : Fault} :
    m.toClose? args = some (key, f) → f.closingFault? = some e →
    Routine.close.call evaluate args m = .error e (m.moving key f) → Closing evaluate m args
  | reported {key name : String} {contents : List Value} :
    m.toClose? args = some (key, ⟨.text name, contents⟩) → contents.all Value.isByte = true →
    Routine.close.call evaluate args m = .ok .null (m.closing key name contents) →
    Closing evaluate m args

theorem closing (evaluate : Evaluator) (m : Machine) (args : Arguments) :
    Closing evaluate m args := by
  cases htaken : m.toClose? args with
  | none => exact .idle htaken (final_close_of_none htaken)
  | some file =>
    obtain ⟨key, name, contents⟩ := file
    cases hfault : OpenFile.closingFault? ⟨name, contents⟩ with
    | some e => exact .failed htaken hfault (close_of_fault evaluate htaken hfault)
    | none =>
      obtain ⟨text, hname, hall⟩ := OpenFile.closingFault?_eq_none_iff.mp hfault
      cases hname
      exact .reported htaken hall (close_of_all_bytes evaluate htaken hall)

end Library

/-! Runs of closings -/

namespace Machine

/-- The file that a call takes, if there is one. -/
def taken (m : Machine) (args : Arguments) : List OpenFile := ((m.toClose? args).map (·.2)).toList

/-- The closed files after more of them. -/
def recording (gs : List ClosedFile) (fs : List OpenFile) : List ClosedFile :=
  fs.foldl (fun gs f ↦ Library.addClosed ⟨f.name, f.contents⟩ gs) gs

end Machine

namespace Library

variable {evaluate : Evaluator}

theorem closedFiles_final_close (m : Machine) (args : Arguments) :
    ((Routine.close.call evaluate args).final m).frame.closedFiles =
      Machine.recording m.frame.closedFiles (m.taken args) := by
  cases closing evaluate m args with
  | idle hnone hfinal =>
    rw [hfinal, Machine.taken, hnone]
    rfl
  | failed htaken hfault hcall =>
    rw [Eval.final_of_error hcall, Machine.taken, htaken]
    rfl
  | reported htaken hall hcall =>
    rw [Eval.final_of_ok hcall, Machine.taken, htaken]
    rfl

theorem drops_final_close (m : Machine) (args : Arguments) :
    ((Routine.close.call evaluate args).final m).drops =
      m.drops ++ (m.taken args).filterMap OpenFile.report? := by
  cases closing evaluate m args with
  | idle hnone hfinal =>
    rw [hfinal, Machine.taken, hnone]
    exact (List.append_nil _).symm
  | failed htaken hfault hcall =>
    have hreport := OpenFile.report?_eq_none_iff.mpr (hfault ▸ Option.some_ne_none _)
    rw [Eval.final_of_error hcall, Machine.taken, htaken]
    simp [hreport, Machine.drops, Machine.moving]
  | reported htaken hall hcall =>
    rw [Eval.final_of_ok hcall, Machine.taken, htaken]
    simp [OpenFile.report?, hall, Machine.drops, Machine.closing, dropReport, Action.isDrop]

end Library

/-- Calls that close files, failed ones among them, with anything between them that leaves the closed
files and the reports alone. The files are those that the calls took. -/
inductive ClosingRun (evaluate : Evaluator) : List OpenFile → Machine → Machine → Prop
  | start (m : Machine) : ClosingRun evaluate [] m m
  | between {fs : List OpenFile} {m₀ m m' : Machine} :
    ClosingRun evaluate fs m₀ m → m'.frame.closedFiles = m.frame.closedFiles → m'.drops = m.drops →
    ClosingRun evaluate fs m₀ m'
  | closes {fs : List OpenFile} {m₀ m : Machine} (args : Arguments) :
    ClosingRun evaluate fs m₀ m →
    ClosingRun evaluate (fs ++ m.taken args) m₀ ((Routine.close.call evaluate args).final m)

namespace ClosingRun

variable {evaluate : Evaluator} {fs : List OpenFile} {m₀ m m' : Machine} {args : Arguments}
  {e : Fault}

theorem closed_eq (h : ClosingRun evaluate fs m₀ m) :
    m.frame.closedFiles = Machine.recording m₀.frame.closedFiles fs := by
  induction h with
  | start m => rfl
  | between hrun hclosed hdrops ih => rw [hclosed, ih]
  | closes args hrun ih =>
    rw [Library.closedFiles_final_close, ih, Machine.recording, Machine.recording, Machine.recording,
      List.foldl_append]

theorem drops_eq (h : ClosingRun evaluate fs m₀ m) :
    m.drops = m₀.drops ++ fs.filterMap OpenFile.report? := by
  induction h with
  | start m => exact (List.append_nil _).symm
  | between hrun hclosed hdrops ih => rw [hdrops, ih]
  | closes args hrun ih =>
    rw [Library.drops_final_close, ih, List.filterMap_append, List.append_assoc]

/-- What a failed call leaves behind. -/
structure Failure (m m' : Machine) (args : Arguments) (e : Fault) : Prop where
  /-- Nothing is reported. -/
  actions_eq : m'.actions = m.actions
  /-- The tables of files are as they were only if no file was taken. -/
  sameTables_iff : m.SameTables m' ↔ m.toClose? args = none
  /-- Then nothing has changed at all. -/
  untouched : m.toClose? args = none → m' = m
  /-- A file that was taken stays closed, and it is what the fault comes from. -/
  moved : ∀ key f, m.toClose? args = some (key, f) → m' = m.moving key f ∧ f.closingFault? = some e

theorem failure_of_error (h : Routine.close.call evaluate args m = .error e m') :
    Failure m m' args e := by
  cases Library.closing evaluate m args with
  | idle hnone hfinal =>
    have hsame : m' = m := (Eval.final_of_error h).symm.trans hfinal
    subst hsame
    refine ⟨rfl, iff_of_true ⟨rfl, rfl⟩ hnone, fun _ ↦ rfl, fun key f hsome ↦ ?_⟩
    exact absurd (hnone.symm.trans hsome) (Option.some_ne_none _).symm
  | @failed key f _ htaken hfault hcall =>
    cases h.symm.trans hcall
    have hne : m.toClose? args ≠ none := htaken ▸ Option.some_ne_none _
    have hopen := (Machine.toClose?_eq_some_iff.mp htaken).2.2.1
    refine ⟨rfl, iff_of_false (Machine.not_sameTables_moving hopen f) hne,
      fun hnone ↦ absurd hnone hne, fun _ _ hsome ↦ ?_⟩
    cases htaken.symm.trans hsome
    exact ⟨rfl, hfault⟩
  | reported htaken hall hcall => cases h.symm.trans hcall

theorem fails_iff_of_taken {key : String} {f : OpenFile} (htaken : m.toClose? args = some (key, f)) :
    (∃ e m', Routine.close.call evaluate args m = .error e m') ↔ f.report? = none := by
  rw [OpenFile.report?_eq_none_iff]
  constructor
  · rintro ⟨e, m', h⟩
    rw [((failure_of_error h).moved key f htaken).2]
    exact Option.some_ne_none e
  · intro hfault
    obtain ⟨e, he⟩ := Option.ne_none_iff_exists'.mp hfault
    exact ⟨e, _, Library.close_of_fault evaluate htaken he⟩

/-- The closed files of a run, as its calls account for them, and what the next call can do. -/
structure Accounts (evaluate : Evaluator) (fs : List OpenFile) (m₀ m : Machine) : Prop where
  /-- The closed files are those that were taken, whether the call failed or not. -/
  closed_eq : m.frame.closedFiles = Machine.recording m₀.frame.closedFiles fs
  /-- Of these every one that can be reported is, once and in order, and no other. -/
  drops_eq : m.drops = m₀.drops ++ fs.filterMap OpenFile.report?
  /-- A call that takes a file fails exactly when the file cannot be reported. -/
  fails_iff : ∀ args key f, m.toClose? args = some (key, f) →
    ((∃ e m', Routine.close.call evaluate args m = .error e m') ↔ f.report? = none)
  failures : ∀ args e m', Routine.close.call evaluate args m = .error e m' → Failure m m' args e

theorem accounts_for_failures (h : ClosingRun evaluate fs m₀ m) : Accounts evaluate fs m₀ m where
  closed_eq := h.closed_eq
  drops_eq := h.drops_eq
  fails_iff _ _ _ := fails_iff_of_taken
  failures _ _ _ := failure_of_error

/-! A character beyond the bytes -/

open Semantics Semantics.FileRun

theorem toClose?_of_open {number : FileNumber} {f : OpenFile} (hopen : m.open? number = some f)
    (hlist : f.name.isList = false) :
    m.toClose? (some [.text number.text]) = some (number.text, f) :=
  Machine.toClose?_eq_some_iff.mpr ⟨rfl, number.marked, hopen, hlist⟩

def wideFile : OpenFile := ⟨.text "x", [.int 256]⟩

def narrowFile : OpenFile := ⟨.text "y", [.int 65]⟩

def wideEvents : List FileEvent :=
  [.opened firstFile wideFile.name, .wrote firstFile wideFile.contents]

theorem exists_wide (evaluate : Evaluator) : ∃ m, FileRun evaluate wideEvents {} m ∧
    m.open? firstFile = some wideFile ∧ m.frame.closedFiles = [] ∧ m.drops = [] := by
  have hempty : FileRun evaluate [] {} {} := .start {}
  have hfree : ({} : Machine).resolve? "x" = none := by decide +kernel
  have hopened := hempty.step (.opens_text firstFile "x" (by decide) hfree)
  exact ⟨_, hopened.step (.prints_text firstFile "Ā" (by decide) rfl rfl), rfl, rfl, rfl⟩

/-- A second file is closed and reported, with the wide one still open. -/
theorem exists_closing_beside_wide (evaluate : Evaluator) :
    ∃ m, ClosingRun evaluate [narrowFile] {} m ∧ m.open? firstFile = some wideFile := by
  obtain ⟨m, -, hopen, hclosed, hdrops⟩ := exists_wide evaluate
  have hstart : ClosingRun evaluate [] {} (m.holding secondFile.text narrowFile) :=
    (ClosingRun.start {}).between hclosed hdrops
  have hsecond : (m.holding secondFile.text narrowFile).open? secondFile = some narrowFile := by
    rw [FileEvent.open?_holding, if_pos rfl]
  have htaken := toClose?_of_open hsecond rfl
  have hrun := hstart.closes (some [.text secondFile.text])
  have hcall := Library.close_of_all_bytes evaluate htaken rfl
  rw [Machine.taken, htaken, Eval.final_of_ok hcall] at hrun
  refine ⟨_, hrun, ?_⟩
  have hother : (secondFile.text == firstFile.text) = false := rfl
  rw [Machine.open?, Machine.closing, Table.find?_erase, hother, if_neg Bool.false_ne_true]
  exact (FileEvent.open?_holding m secondFile firstFile narrowFile).trans hopen

theorem accounts_for_wide : ∃ m,
    ClosingRun (Semantics.evaluate roundLimit depthLimit) [narrowFile] {} m ∧
      m.frame.closedFiles = [⟨.text "y", [.int 65]⟩] ∧ m.drops = [dropReport "y" [65]] ∧
      ∃ m', Routine.close.call (Semantics.evaluate roundLimit depthLimit) (some [.text "#1"]) m =
          .error .overflow m' ∧ m'.actions = m.actions ∧ ¬m.SameTables m' := by
  obtain ⟨m, hrun, hopen⟩ := exists_closing_beside_wide (Semantics.evaluate roundLimit depthLimit)
  have haccounts := accounts_for_failures hrun
  have htaken := toClose?_of_open hopen rfl
  obtain ⟨e, m', hcall⟩ := (haccounts.fails_iff _ _ _ htaken).mpr rfl
  have hfailure := haccounts.failures _ _ _ hcall
  obtain ⟨-, hfault⟩ := hfailure.moved _ _ htaken
  cases hfault
  refine ⟨m, hrun, haccounts.closed_eq, haccounts.drops_eq, m', hcall, hfailure.actions_eq, ?_⟩
  rw [hfailure.sameTables_iff]
  exact htaken ▸ Option.some_ne_none _

/-- The file is closed by a call that fails, and is not reported. -/
theorem wide_closed_unreported : ∃ m m',
    FileRun (Semantics.evaluate roundLimit depthLimit) wideEvents {} m ∧
      Routine.close.call (Semantics.evaluate roundLimit depthLimit) (some [.text "#1"]) m =
        .error .overflow m' ∧
      m.open? firstFile = some wideFile ∧ m.closed? "x" = none ∧
      m'.open? firstFile = none ∧ m'.closed? "x" = some wideFile.contents ∧ m'.drops = [] := by
  obtain ⟨m, hrun, hopen, hclosed, hdrops⟩ := exists_wide (Semantics.evaluate roundLimit depthLimit)
  have htaken := toClose?_of_open hopen rfl
  have hcall := Library.close_of_fault (Semantics.evaluate roundLimit depthLimit) htaken rfl
  refine ⟨m, m.moving "#1" wideFile, hrun, hcall, hopen, ?_, ?_, ?_, hdrops⟩
  · rw [Machine.closed?, hclosed]
    rfl
  · exact (Table.find?_erase ..).trans (if_pos rfl)
  · rw [Machine.closed?, Machine.moving, hclosed]
    rfl

end ClosingRun

end VbaTrace
