import VbaTrace.Proofs.ConstantExpressions
import VbaTrace.Proofs.EntryPoints

/-!
What the emulated files of a frame hold. A run opens, writes and closes files by their numbers, in any
order (`FileRun`), and its events tell what each statement did to its file. One event changes the file
of its own number and no other one, and only a closing adds to the closed files and to the reports
(`Performs.changes`). Over a whole run an open file then holds what was written to it since it was last
opened (`Holds`), and so did every file when it was closed.
-/

set_option autoImplicit false

namespace VbaTrace

namespace Table

variable {α : Type}

theorem findIn_filter_ne (key other : String) (es : List (String × α)) :
    findIn other (es.filter fun e ↦ e.1 != key) = if key == other then none else findIn other es := by
  induction es with
  | nil => simp [findIn]
  | cons e es ih =>
    by_cases h : e.1 = key
    · by_cases h' : key = other <;> simp_all [findIn]
    · by_cases h' : e.1 = other
      · have : ¬ key = other := fun hk ↦ h (h'.trans hk.symm)
        simp_all [findIn]
      · simp_all [findIn]

@[simp] theorem find?_erase (t : Table α) (key other : String) :
    (t.erase key).find? other = if key == other then none else t.find? other :=
  findIn_filter_ne key other t.entries

end Table

theorem Value.equals_text_iff {v : Value} {s : String} : v.equals (.text s) = true ↔ v = .text s := by
  cases v with
  | text t => simp [equals]
  | _ => simp [equals, compareNumbers, asInt?]

theorem Eval.ofExcept_eq_ok {α : Type} {r : Except Fault α} {a : α} {m m' : Machine}
    (h : ofExcept r m = .ok a m') : r = .ok a ∧ m' = m := by
  cases r with
  | ok b =>
    cases h
    exact ⟨rfl, rfl⟩
  | error f => exact nomatch h

theorem modifyFrame_eq (f : Frame → Frame) (m : Machine) :
    modifyFrame f m = .ok () { m with frame := f m.frame } :=
  rfl

/-! Files of a frame and their reports -/

/-- The number of a file as statements write it. -/
structure FileNumber where
  text : String
  marked : Text.startsWith "#" text = true
  undotted : '.' ∉ text.toList
deriving DecidableEq

theorem FileNumber.text_inj {n k : FileNumber} : n.text = k.text ↔ n = k := by
  cases n
  cases k
  simp

/-- The file with more behind what it holds. -/
def OpenFile.adding (f : OpenFile) (items : List Value) : OpenFile :=
  { f with contents := f.contents ++ items }

theorem OpenFile.adding_adding (f : OpenFile) (first second : List Value) :
    (f.adding first).adding second = f.adding (first ++ second) := by
  simp [adding]

/-- The heading under which closed files are reported. -/
def Action.isDrop (a : Action) : Bool :=
  match a.what with
  | .text s => s == "Dropped File Hash"
  | _ => false

/-- The report of a closed file. -/
def dropReport (name : String) (bytes : List UInt8) : Action :=
  ⟨.text "Dropped File Hash", .text (Encoding.sha256 bytes), .text ("File Name: " ++ name)⟩

/-- The bytes among what a file holds. -/
def fileBytes (contents : List Value) : List UInt8 :=
  contents.filterMap fun v ↦ (Library.byteOf v).toOption

namespace Machine

/-- The reports of closed files, in order. -/
def drops (m : Machine) : List Action := m.actions.toList.filter Action.isDrop

def open? (m : Machine) (number : FileNumber) : Option OpenFile :=
  m.frame.openFiles.find? number.text

/-- What the closed file of a name holds. -/
def closed? (m : Machine) (name : String) : Option (List Value) :=
  (m.frame.closedFiles.find? fun f ↦ f.name.equals (.text name)).map (·.contents)

/-- The kept files after one more. -/
def keeping (m : Machine) (name : String) (bytes : List UInt8) : Table (List UInt8) :=
  match Library.keptAt? m name with
  | some place => m.dropped.put place bytes
  | none => m.dropped

def holding (m : Machine) (key : String) (f : OpenFile) : Machine :=
  { m with frame := { m.frame with openFiles := m.frame.openFiles.put key f } }

def closing (m : Machine) (key name : String) (contents : List Value) : Machine :=
  { m with
    frame :=
      { m.frame with
        closedFiles := Library.addClosed ⟨.text name, contents⟩ m.frame.closedFiles
        openFiles := m.frame.openFiles.erase key }
    actions := m.actions.push (dropReport name (fileBytes contents))
    dropped := m.keeping name (fileBytes contents) }

/-- The files that are open and closed and their reports are the same. -/
structure SameFiles (m m' : Machine) : Prop where
  open_eq : m'.frame.openFiles = m.frame.openFiles
  closed_eq : m'.frame.closedFiles = m.frame.closedFiles
  drops_eq : m'.drops = m.drops

end Machine

theorem find?_addClosed (name other : String) (contents : List Value) (fs : List ClosedFile) :
    (Library.addClosed ⟨.text name, contents⟩ fs).find? (fun f ↦ f.name.equals (.text other)) =
      if name = other then some ⟨.text name, contents⟩
      else fs.find? fun f ↦ f.name.equals (.text other) := by
  induction fs with
  | nil => by_cases h : name = other <;> simp [Library.addClosed, Value.equals, h]
  | cons g gs ih =>
    by_cases hg : g.name.equals (.text name) = true
    · have hname := Value.equals_text_iff.mp hg
      by_cases h : name = other <;> simp [Library.addClosed, hname, Value.equals, h]
    · by_cases hother : g.name.equals (.text other) = true
      · have hne : name ≠ other := fun h ↦ hg (h ▸ hother)
        simp [Library.addClosed, hg, hother, hne]
      · simp [Library.addClosed, hg, hother, ih]

/-! What one statement does -/

namespace Library

variable {m m' : Machine} {key : String}

theorem keepDropped_eq (name : String) (bytes : List UInt8) (m : Machine) :
    keepDropped name bytes m = .ok () { m with dropped := m.keeping name bytes } := by
  unfold keepDropped Machine.keeping
  refine congrArg (EStateM.Result.ok ()) ?_
  dsimp only
  cases keptAt? m name <;> rfl

theorem openFile_eq_ok {other : String} {f : OpenFile} (h : openFile m (.text key) = .ok (other, f)) :
    other = key ∧ m.frame.openFiles.find? key = some f := by
  rw [openFile] at h
  cases hfound : m.frame.openFiles.find? key with
  | none =>
    rw [hfound] at h
    exact nomatch h
  | some g =>
    rw [hfound] at h
    cases h
    exact ⟨rfl, rfl⟩

theorem mapM_byteOf {contents : List Value} {bytes : List UInt8}
    (h : contents.mapM byteOf = .ok bytes) : bytes = fileBytes contents := by
  induction contents generalizing bytes with
  | nil =>
    cases h
    rfl
  | cons v vs ih =>
    rw [List.mapM_cons] at h
    cases hv : byteOf v with
    | error f =>
      rw [hv] at h
      exact nomatch h
    | ok b =>
      cases hvs : vs.mapM byteOf with
      | error f =>
        rw [hv, hvs] at h
        exact nomatch h
      | ok bs =>
        rw [hv, hvs] at h
        cases h
        rw [ih hvs, fileBytes, fileBytes, List.filterMap_cons, hv]
        rfl

theorem close_of_open {name : String} {contents : List Value} {bytes : List UInt8}
    (hmarked : Text.startsWith "#" key = true)
    (hopen : m.frame.openFiles.find? key = some ⟨.text name, contents⟩)
    (hbytes : contents.mapM byteOf = .ok bytes) :
    close [.text key] m = .ok .null (m.closing key name contents) := by
  have hfile : openFile m (.text key) = .ok (key, ⟨.text name, contents⟩) := by
    rw [openFile, hopen]
  have hreport : ∀ m : Machine, report (.text "Dropped File Hash") (.text (Encoding.sha256 bytes))
      (.text ("File Name: " ++ name)) m =
      .ok () { m with actions := m.actions.push (dropReport name bytes) } := fun _ ↦ rfl
  unfold close
  dsimp only
  rw [Eval.bind_of_ok (show opened (.text key) m = .ok (.text key) m from rfl)]
  dsimp only
  rw [hmarked, Bool.not_true, if_neg Bool.false_ne_true,
    Eval.bind_of_ok (show (get : Eval Machine) m = .ok m m from rfl), hfile]
  rw [Eval.bind_of_ok (show Eval.ofExcept (.ok (key, OpenFile.mk (.text name) contents)) m =
    .ok _ m from rfl)]
  dsimp only
  rw [if_neg (show ¬ (Value.text name).isList = true from Bool.false_ne_true),
    Eval.bind_of_ok (modifyFrame_eq ..), hbytes,
    Eval.bind_of_ok (show Eval.ofExcept (.ok bytes) _ = .ok bytes _ from rfl),
    Eval.bind_of_ok (hreport _), Eval.bind_of_ok (keepDropped_eq ..), mapM_byteOf hbytes]
  rfl

theorem close_eq_ok {v : Value} (hmarked : Text.startsWith "#" key = true)
    (h : close [.text key] m = .ok v m') :
    ∃ name contents bytes, m.frame.openFiles.find? key = some ⟨.text name, contents⟩ ∧
      contents.mapM byteOf = .ok bytes ∧ m' = m.closing key name contents := by
  have hclose := h
  unfold close at h
  dsimp only at h
  rw [Eval.bind_of_ok (show opened (.text key) m = .ok (.text key) m from rfl)] at h
  dsimp only at h
  rw [hmarked, Bool.not_true, if_neg Bool.false_ne_true,
    Eval.bind_of_ok (show (get : Eval Machine) m = .ok m m from rfl)] at h
  obtain ⟨⟨_, name, contents⟩, _, hfile, hrest⟩ := Eval.bind_eq_ok h
  obtain ⟨hfile, rfl⟩ := Eval.ofExcept_eq_ok hfile
  obtain ⟨rfl, hopen⟩ := openFile_eq_ok hfile
  dsimp only at hrest
  by_cases hlist : name.isList = true
  · rw [if_pos hlist] at hrest
    exact nomatch hrest
  rw [if_neg hlist, Eval.bind_of_ok (modifyFrame_eq ..)] at hrest
  obtain ⟨bytes, _, hread, hlast⟩ := Eval.bind_eq_ok hrest
  have hbytes : contents.mapM byteOf = .ok bytes := (Eval.ofExcept_eq_ok hread).1
  cases name with
  | text name =>
    refine ⟨name, contents, bytes, hopen, hbytes, ?_⟩
    rw [close_of_open hmarked hopen hbytes] at hclose
    cases hclose
    rfl
  | _ => exact nomatch hlast

/-- A file that is closed without a fault holds bytes. -/
theorem close_eq_ok_of_open {number : FileNumber} {name : String} {contents : List Value} {v : Value}
    (hopen : m.open? number = some ⟨.text name, contents⟩)
    (h : close [.text number.text] m = .ok v m') :
    contents.mapM byteOf = .ok (fileBytes contents) ∧ m' = m.closing number.text name contents := by
  obtain ⟨name', contents', bytes, hopen', hbytes, rfl⟩ := close_eq_ok number.marked h
  have hsame : OpenFile.mk (.text name) contents = ⟨.text name', contents'⟩ :=
    Option.some.inj (hopen.symm.trans hopen')
  cases hsame
  exact ⟨mapM_byteOf hbytes ▸ hbytes, rfl⟩

theorem appendToFile_of_open {data : Value} {f : OpenFile}
    (hitems : (itemsToWrite (m.heap.opened data)).isEmpty = false)
    (hopen : m.frame.openFiles.find? key = some f) :
    appendToFile (.text key) data m =
      .ok () (m.holding key (f.adding (itemsToWrite (m.heap.opened data)))) := by
  have hfile : openFile m (.text key) = .ok (key, f) := by rw [openFile, hopen]
  unfold appendToFile
  rw [Eval.bind_of_ok (show opened data m = .ok (m.heap.opened data) m from rfl)]
  dsimp only
  rw [hitems, if_neg Bool.false_ne_true,
    Eval.bind_of_ok (show (get : Eval Machine) m = .ok m m from rfl), hfile]
  rfl

theorem appendToFile_eq_ok {data : Value} (h : appendToFile (.text key) data m = .ok () m') :
    itemsToWrite (m.heap.opened data) = [] ∧ m' = m ∨
      ∃ f, m.frame.openFiles.find? key = some f ∧
        m' = m.holding key (f.adding (itemsToWrite (m.heap.opened data))) := by
  have happend := h
  unfold appendToFile at h
  rw [Eval.bind_of_ok (show opened data m = .ok (m.heap.opened data) m from rfl)] at h
  dsimp only at h
  cases hitems : (itemsToWrite (m.heap.opened data)).isEmpty with
  | true =>
    rw [if_pos hitems] at h
    cases h
    exact .inl ⟨List.isEmpty_iff.mp hitems, rfl⟩
  | false =>
    rw [hitems, if_neg Bool.false_ne_true,
      Eval.bind_of_ok (show (get : Eval Machine) m = .ok m m from rfl)] at h
    obtain ⟨⟨_, f⟩, _, hread, -⟩ := Eval.bind_eq_ok h
    have hopen := (openFile_eq_ok (Eval.ofExcept_eq_ok hread).1).2
    rw [appendToFile_of_open hitems hopen] at happend
    cases happend
    exact .inr ⟨f, hopen, rfl⟩

end Library

/-! Events and runs -/

/-- What a statement does to the file of a number. -/
inductive FileEvent
  | opened (number : FileNumber) (name : Value)
  | wrote (number : FileNumber) (items : List Value)
  | closed (number : FileNumber) (name : String) (contents : List Value)

namespace FileEvent

def number : FileEvent → FileNumber
  | opened n _ | wrote n _ | closed n _ _ => n

def items : FileEvent → List Value
  | wrote _ vs => vs
  | _ => []

def isWrite : FileEvent → Bool
  | wrote _ _ => true
  | _ => false

/-- What a closing leaves under a name. -/
def closedAs? (name : String) : FileEvent → Option (List Value)
  | closed _ other contents => if other = name then some contents else none
  | _ => none

def reports : FileEvent → List Action
  | closed _ name contents => [dropReport name (fileBytes contents)]
  | _ => []

end FileEvent

/-- What the events write to a file, in order. -/
def writtenTo (number : FileNumber) (es : List FileEvent) : List Value :=
  (es.filter fun e ↦ e.number = number).flatMap FileEvent.items

/-- All that the events do to a file is to write to it. -/
def OnlyWrites (number : FileNumber) (es : List FileEvent) : Prop :=
  ∀ e ∈ es, e.number = number → e.isWrite = true

/-- After the events a file holds what was written to it since it was last opened. A file that was
open before them still holds what it held then, and what they wrote to it. -/
inductive Holds (before : Option OpenFile) (es : List FileEvent) (number : FileNumber) :
    OpenFile → Prop
  | opened {earlier later : List FileEvent} {name : Value} :
    es = earlier ++ .opened number name :: later → OnlyWrites number later →
    Holds before es number ⟨name, writtenTo number later⟩
  | before {f : OpenFile} : before = some f → OnlyWrites number es →
    Holds before es number (f.adding (writtenTo number es))

section

variable {number : FileNumber} {es : List FileEvent} {e : FileEvent}

@[simp] theorem writtenTo_nil (number : FileNumber) : writtenTo number [] = [] :=
  rfl

@[simp] theorem onlyWrites_nil (number : FileNumber) : OnlyWrites number [] :=
  fun _ he ↦ absurd he List.not_mem_nil

@[simp] theorem writtenTo_append (number : FileNumber) (es es' : List FileEvent) :
    writtenTo number (es ++ es') = writtenTo number es ++ writtenTo number es' := by
  simp [writtenTo]

@[simp] theorem onlyWrites_append {es' : List FileEvent} :
    OnlyWrites number (es ++ es') ↔ OnlyWrites number es ∧ OnlyWrites number es' := by
  simp [OnlyWrites, or_imp, forall_and]

theorem onlyWrites_singleton :
    OnlyWrites number [e] ↔ (e.number = number → e.isWrite = true) := by
  simp [OnlyWrites]

theorem writtenTo_singleton (number : FileNumber) (e : FileEvent) :
    writtenTo number [e] = if e.number = number then e.items else [] := by
  by_cases h : e.number = number <;> simp [writtenTo, h]

theorem holds_nil {before : Option OpenFile} {f : OpenFile} :
    Holds before [] number f ↔ before = some f := by
  constructor
  · intro h
    cases h with
    | opened heq => simp at heq
    | before hbefore => simpa [OpenFile.adding] using hbefore
  · intro h
    have hnil := Holds.before h (onlyWrites_nil number)
    simpa [OpenFile.adding] using hnil

/-- One more event opens the file, or writes to what it held. -/
theorem holds_concat {before : Option OpenFile} {f : OpenFile} :
    Holds before (es ++ [e]) number f ↔
      (∃ name, e = .opened number name ∧ f = ⟨name, []⟩) ∨
        OnlyWrites number [e] ∧ ∃ g, Holds before es number g ∧ f = g.adding (writtenTo number [e]) := by
  constructor
  · intro h
    cases h with
    | @opened earlier later name heq honly =>
      rcases List.eq_nil_or_concat later with rfl | ⟨later, x, rfl⟩
      · obtain ⟨-, hlast⟩ := List.append_inj' heq rfl
        exact .inl ⟨name, List.head_eq_of_cons_eq hlast, rfl⟩
      · rw [List.concat_eq_append] at heq honly ⊢
        rw [← List.cons_append, ← List.append_assoc] at heq
        obtain ⟨hes, hlast⟩ := List.append_inj' heq rfl
        cases hlast
        obtain ⟨hlater, he⟩ := onlyWrites_append.mp honly
        exact .inr ⟨he, _, .opened hes hlater, by simp [OpenFile.adding]⟩
    | before hbefore honly =>
      obtain ⟨hes, he⟩ := onlyWrites_append.mp honly
      exact .inr ⟨he, _, .before hbefore hes, by simp [OpenFile.adding]⟩
  · rintro (⟨name, rfl, rfl⟩ | ⟨he, g, hg, rfl⟩)
    · exact .opened rfl (onlyWrites_nil number)
    · cases hg with
      | @opened earlier later name heq hlater =>
        have hall : es ++ [e] = earlier ++ .opened number name :: (later ++ [e]) := by simp [heq]
        rw [OpenFile.adding, ← writtenTo_append]
        exact .opened hall (onlyWrites_append.mpr ⟨hlater, he⟩)
      | before hbefore hes =>
        rw [OpenFile.adding_adding, ← writtenTo_append]
        exact .before hbefore (onlyWrites_append.mpr ⟨hes, he⟩)

end

namespace Semantics

/-- The name under which a statement opens its file. -/
def openedName (evaluate : Evaluator) (fileName : Value) : Eval Value := do
  let name ← evalOperand evaluate fileName
  Eval.handle (fetch fileName) (fun f ↦ f.isMissing || f == .failedAssertion) fun _ ↦ return name

/-- A statement, evaluated without a fault, does what the event says. The first machine is the one
that its operands leave. -/
inductive Performs (evaluate : Evaluator) : FileEvent → Machine → Machine → Prop
  | opens {number : FileNumber} {fileName name v : Value} {m m₁ m' : Machine} :
    openedName evaluate fileName m = .ok name m₁ →
    evalOpenFile evaluate fileName (.text number.text) m = .ok v m' →
    Performs evaluate (.opened number name) m₁ m'
  | puts {number : FileNumber} {position : Option Value} {data v : Value} {m m' : Machine} :
    Routine.put.call evaluate (some (.text number.text :: (position.toList ++ [data]))) m = .ok v m' →
    Performs evaluate (.wrote number (Library.itemsToWrite (m.heap.opened data))) m m'
  | prints {number : FileNumber} {value data v : Value} {m m₁ m' : Machine} :
    evalOperand evaluate value m = .ok data m₁ →
    evalPrint evaluate (.text number.text) value m = .ok v m' →
    Performs evaluate (.wrote number (Library.itemsToWrite (m₁.heap.opened data))) m₁ m'
  | closes {number : FileNumber} {name : String} {contents : List Value} {v : Value}
      {m m' : Machine} :
    m.open? number = some ⟨.text name, contents⟩ →
    Routine.close.call evaluate (some [.text number.text]) m = .ok v m' →
    Performs evaluate (.closed number name contents) m m'

/-- The events of statements that were evaluated in one frame, with anything between them that
leaves its files alone. -/
inductive FileRun (evaluate : Evaluator) : List FileEvent → Machine → Machine → Prop
  | start (m : Machine) : FileRun evaluate [] m m
  | between {es : List FileEvent} {m₀ m m' : Machine} :
    FileRun evaluate es m₀ m → m.SameFiles m' → FileRun evaluate es m₀ m'
  | step {es : List FileEvent} {e : FileEvent} {m₀ m m' : Machine} :
    FileRun evaluate es m₀ m → Performs evaluate e m m' → FileRun evaluate (es ++ [e]) m₀ m'

section

variable {evaluate : Evaluator}

theorem evalOpenFile_of_openedName {fileName name : Value} {m m₁ : Machine}
    (hname : openedName evaluate fileName m = .ok name m₁) (key : String) :
    evalOpenFile evaluate fileName (.text key) m = .ok .null (m₁.holding key ⟨name, []⟩) := by
  obtain ⟨operand, m₂, hoperand, hfound⟩ := Eval.bind_eq_ok hname
  unfold evalOpenFile
  rw [Eval.bind_of_ok hoperand, Eval.bind_of_ok hfound]
  rfl

theorem evalPrint_eq_ok {number : FileNumber} {value v data : Value} {m m₁ m' : Machine}
    (hdata : evalOperand evaluate value m = .ok data m₁)
    (h : evalPrint evaluate (.text number.text) value m = .ok v m') :
    Library.appendToFile (.text number.text) data m₁ = .ok () m' := by
  unfold evalPrint at h
  rw [Eval.bind_of_ok (gives_undotted number.undotted), Eval.bind_of_ok hdata] at h
  obtain ⟨_, m₂, happend, hlast⟩ := Eval.bind_eq_ok h
  cases hlast
  exact happend

theorem put_eq_ok {key : String} {position : Option Value} {data v : Value} {m m' : Machine}
    (h : Library.put (.text key :: (position.toList ++ [data])) m = .ok v m') :
    Library.appendToFile (.text key) data m = .ok () m' := by
  unfold Library.put at h
  obtain ⟨_, m₁, hrequire, hrest⟩ := Eval.bind_eq_ok h
  obtain ⟨-, rfl⟩ := Eval.ofExcept_eq_ok hrequire
  obtain ⟨_, m₂, happend, hlast⟩ := Eval.bind_eq_ok hrest
  cases hlast
  cases position with
  | none => exact happend
  | some position => exact happend

end

end Semantics

/-- What an event makes of the files: it opens or writes to its own and to no other one, and leaves
what it closes under the name of the file, with one report. -/
structure FileEvent.Changes (e : FileEvent) (m m' : Machine) : Prop where
  open_iff : ∀ number f, m'.open? number = some f ↔
    (∃ name, e = .opened number name ∧ f = ⟨name, []⟩) ∨
      OnlyWrites number [e] ∧ ∃ g, m.open? number = some g ∧ f = g.adding (writtenTo number [e])
  closed_eq : ∀ name, m'.closed? name = (e.closedAs? name).or (m.closed? name)
  drops_eq : m'.drops = m.drops ++ e.reports

namespace FileEvent

variable {number : FileNumber} {m m' : Machine}

theorem open?_holding (m : Machine) (number other : FileNumber) (f : OpenFile) :
    (m.holding number.text f).open? other = if number = other then some f else m.open? other := by
  simp [Machine.holding, Machine.open?, FileNumber.text_inj]

theorem changes_opened (m : Machine) (number : FileNumber) (name : Value) :
    (opened number name).Changes m (m.holding number.text ⟨name, []⟩) where
  open_iff other f := by
    rw [open?_holding, onlyWrites_singleton, writtenTo_singleton]
    by_cases h : number = other
    · simp [h, FileEvent.number, isWrite, eq_comm (a := f)]
    · simp [h, FileEvent.number, OpenFile.adding]
  closed_eq _ := rfl
  drops_eq := (List.append_nil _).symm

theorem changes_wrote {items : List Value} {f : OpenFile} (hopen : m.open? number = some f) :
    (wrote number items).Changes m (m.holding number.text (f.adding items)) where
  open_iff other g := by
    rw [open?_holding, onlyWrites_singleton, writtenTo_singleton]
    by_cases h : number = other
    · subst h
      simp [hopen, isWrite, FileEvent.number, FileEvent.items, eq_comm (a := g)]
    · simp [h, FileEvent.number, OpenFile.adding]
  closed_eq _ := rfl
  drops_eq := (List.append_nil _).symm

theorem changes_wrote_nil (m : Machine) (number : FileNumber) : (wrote number []).Changes m m where
  open_iff other f := by
    rw [onlyWrites_singleton, writtenTo_singleton, FileEvent.items, ite_self]
    simp [isWrite, OpenFile.adding]
  closed_eq _ := rfl
  drops_eq := (List.append_nil _).symm

theorem changes_closed (m : Machine) (number : FileNumber) (name : String) (contents : List Value) :
    (closed number name contents).Changes m (m.closing number.text name contents) where
  open_iff other f := by
    rw [onlyWrites_singleton, writtenTo_singleton]
    by_cases h : number = other
    · simp [h, Machine.closing, Machine.open?, FileEvent.number, isWrite]
    · simp [h, Machine.closing, Machine.open?, FileEvent.number, OpenFile.adding,
        FileNumber.text_inj]
  closed_eq other := by
    rw [Machine.closed?, Machine.closing, find?_addClosed, closedAs?]
    by_cases h : name = other
    · simp [h]
    · simp [h, Machine.closed?]
  drops_eq := by
    simp [Machine.drops, Machine.closing, reports, dropReport, Action.isDrop]

end FileEvent

namespace Semantics

variable {evaluate : Evaluator} {e : FileEvent} {es : List FileEvent} {m₀ m m' : Machine}

theorem changes_append {number : FileNumber} {data : Value}
    (h : Library.appendToFile (.text number.text) data m = .ok () m') :
    (FileEvent.wrote number (Library.itemsToWrite (m.heap.opened data))).Changes m m' := by
  rcases Library.appendToFile_eq_ok h with ⟨hnone, rfl⟩ | ⟨f, hopen, rfl⟩
  · rw [hnone]
    exact FileEvent.changes_wrote_nil _ number
  · exact FileEvent.changes_wrote hopen

theorem Performs.changes (h : Performs evaluate e m m') : e.Changes m m' := by
  cases h with
  | opens hname hrun =>
    rw [evalOpenFile_of_openedName hname] at hrun
    cases hrun
    exact FileEvent.changes_opened ..
  | puts hrun => exact changes_append (put_eq_ok hrun)
  | prints hdata hrun => exact changes_append (evalPrint_eq_ok hdata hrun)
  | closes hopen hrun =>
    obtain ⟨-, rfl⟩ := Library.close_eq_ok_of_open hopen hrun
    exact FileEvent.changes_closed ..

theorem Performs.found_of_closed {number : FileNumber} {name : String} {contents : List Value}
    (h : Performs evaluate (.closed number name contents) m m') :
    m.open? number = some ⟨.text name, contents⟩ ∧
      contents.mapM Library.byteOf = .ok (fileBytes contents) := by
  cases h with
  | closes hopen hrun => exact ⟨hopen, (Library.close_eq_ok_of_open hopen hrun).1⟩

namespace FileRun

theorem open?_iff (h : FileRun evaluate es m₀ m) (number : FileNumber) (f : OpenFile) :
    m.open? number = some f ↔ Holds (m₀.open? number) es number f := by
  induction h generalizing f with
  | start m => exact holds_nil.symm
  | between hrun hsame ih =>
    rw [← ih, Machine.open?, Machine.open?, hsame.open_eq]
  | step hrun hstep ih =>
    rw [hstep.changes.open_iff, holds_concat]
    simp only [ih]

/-- The contents of the last of the events that closes a file under the name. -/
def latestClosing (name : String) (es : List FileEvent) : Option (List Value) :=
  es.reverse.findSome? (FileEvent.closedAs? name)

theorem closed?_eq (h : FileRun evaluate es m₀ m) (name : String) :
    m.closed? name = (latestClosing name es).or (m₀.closed? name) := by
  induction h with
  | start m => rfl
  | between hrun hsame ih =>
    rw [← ih, Machine.closed?, Machine.closed?, hsame.closed_eq]
  | step hrun hstep ih =>
    rw [hstep.changes.closed_eq, ih, latestClosing, latestClosing, List.reverse_concat]
    cases hclosed : FileEvent.closedAs? name _ <;> simp [hclosed]

theorem drops_eq (h : FileRun evaluate es m₀ m) :
    m.drops = m₀.drops ++ es.flatMap FileEvent.reports := by
  induction h with
  | start m => simp
  | between hrun hsame ih => rw [hsame.drops_eq, ih]
  | step hrun hstep ih => simp [hstep.changes.drops_eq, ih]

/-- Every closing finds what its file held, which are bytes. -/
theorem holds_of_closed (h : FileRun evaluate es m₀ m) {earlier later : List FileEvent}
    {number : FileNumber} {name : String} {contents : List Value}
    (heq : es = earlier ++ .closed number name contents :: later) :
    Holds (m₀.open? number) earlier number ⟨.text name, contents⟩ ∧
      contents.mapM Library.byteOf = .ok (fileBytes contents) := by
  induction h generalizing later with
  | start m => simp at heq
  | between hrun hsame ih => exact ih heq
  | step hrun hstep ih =>
    rcases List.eq_nil_or_concat later with rfl | ⟨later, x, rfl⟩
    · obtain ⟨rfl, hlast⟩ := List.append_inj' heq rfl
      cases hlast
      obtain ⟨hopen, hbytes⟩ := hstep.found_of_closed
      exact ⟨(hrun.open?_iff number _).mp hopen, hbytes⟩
    · rw [List.concat_eq_append, ← List.cons_append, ← List.append_assoc] at heq
      exact ih (List.append_inj' heq rfl).1

/-- The files of a frame, as the events of a run account for them. -/
structure Accounts (es : List FileEvent) (m₀ m : Machine) : Prop where
  /-- An open file holds what was written to it since it was last opened, and a file is open only
  when it was not closed since then. -/
  open_iff : ∀ number f, m.open? number = some f ↔ Holds (m₀.open? number) es number f
  /-- Every closing takes what its file held at that moment, which are bytes. -/
  closings : ∀ earlier number name contents later,
    es = earlier ++ .closed number name contents :: later →
      Holds (m₀.open? number) earlier number ⟨.text name, contents⟩ ∧
        contents.mapM Library.byteOf = .ok (fileBytes contents)
  /-- The closed file of a name is what was last closed under it. -/
  closed_eq : ∀ name, m.closed? name = (latestClosing name es).or (m₀.closed? name)
  /-- Every closing is reported once, in order. -/
  drops_eq : m.drops = m₀.drops ++ es.flatMap FileEvent.reports

theorem accounts_for_files (h : FileRun evaluate es m₀ m) : Accounts es m₀ m where
  open_iff := h.open?_iff
  closings _ _ _ _ _ := h.holds_of_closed
  closed_eq := h.closed?_eq
  drops_eq := h.drops_eq

end FileRun

/-! Two files in turn, one of them opened again under its name -/

namespace Performs

variable {f : OpenFile}

theorem opens_text (number : FileNumber) (name : String) (hdot : '.' ∉ name.toList)
    (hfree : m.resolve? name = none) :
    Performs evaluate (.opened number (.text name)) m (m.holding number.text ⟨.text name, []⟩) := by
  have hname : openedName evaluate (.text name) m = .ok (.text name) m := by
    unfold openedName
    rw [Eval.bind_of_ok (gives_undotted hdot), Eval.handle_of_error (fetch_of_none hfree)]
    rfl
  exact .opens hname (evalOpenFile_of_openedName hname number.text)

theorem prints_text (number : FileNumber) (s : String) (hdot : '.' ∉ s.toList)
    (hitems : (Library.itemsToWrite (.text s)).isEmpty = false) (hopen : m.open? number = some f) :
    Performs evaluate (.wrote number (Library.itemsToWrite (.text s))) m
      (m.holding number.text (f.adding (Library.itemsToWrite (.text s)))) := by
  have happend : Library.appendToFile (.text number.text) (.text s) m = _ :=
    Library.appendToFile_of_open hitems hopen
  have hprint : evalPrint evaluate (.text number.text) (.text s) m =
      .ok .null (m.holding number.text (f.adding (Library.itemsToWrite (.text s)))) := by
    unfold evalPrint
    rw [Eval.bind_of_ok (gives_undotted number.undotted), Eval.bind_of_ok (gives_undotted hdot),
      Eval.bind_of_ok happend]
    rfl
  exact .prints (gives_undotted hdot) hprint

theorem puts_list (number : FileNumber) (vs : List Value) (hitems : vs.isEmpty = false)
    (hopen : m.open? number = some f) :
    Performs evaluate (.wrote number vs) m (m.holding number.text (f.adding vs)) := by
  have happend : Library.appendToFile (.text number.text) (.list vs) m = _ :=
    Library.appendToFile_of_open hitems hopen
  have hput : Library.put (.text number.text :: ((none : Option Value).toList ++ [.list vs])) m =
      .ok .null (m.holding number.text (f.adding vs)) := by
    change (Library.appendToFile (.text number.text) (.list vs) >>= fun _ ↦ pure Value.null) m = _
    rw [Eval.bind_of_ok happend]
    rfl
  exact .puts hput

theorem closes_bytes (number : FileNumber) {name : String} {contents : List Value}
    {bytes : List UInt8} (hopen : m.open? number = some ⟨.text name, contents⟩)
    (hbytes : contents.mapM Library.byteOf = .ok bytes) :
    Performs evaluate (.closed number name contents) m (m.closing number.text name contents) :=
  .closes hopen (Library.close_of_open number.marked hopen hbytes)

end Performs

namespace FileRun

def firstFile : FileNumber := ⟨"#1", by decide, by decide⟩

def secondFile : FileNumber := ⟨"#2", by decide, by decide⟩

def interleaved : List FileEvent :=
  [.opened firstFile (.text "C:\\x"), .wrote firstFile [.int 65], .opened secondFile (.text "y"),
    .wrote secondFile [.int 1, .int 2], .wrote firstFile [.int 66],
    .closed firstFile "C:\\x" [.int 65, .int 66], .opened firstFile (.text "C:\\x"),
    .wrote firstFile [.int 67], .closed firstFile "C:\\x" [.int 67]]

theorem exists_interleaved (evaluate : Evaluator) : ∃ m, FileRun evaluate interleaved {} m := by
  have hempty : FileRun evaluate [] {} {} := .start {}
  have hx : ({} : Machine).resolve? "C:\\x" = none := by decide +kernel
  have hy : ({} : Machine).resolve? "y" = none := by decide +kernel
  have hopened := hempty.step (.opens_text firstFile "C:\\x" (by decide) hx)
  have hfirst := hopened.step (.prints_text firstFile "A" (by decide) rfl rfl)
  have hboth := hfirst.step (.opens_text secondFile "y" (by decide) hy)
  have hsecond := hboth.step (.puts_list secondFile [.int 1, .int 2] rfl rfl)
  have hmore := hsecond.step (.prints_text firstFile "B" (by decide) rfl rfl)
  have hclosed := hmore.step (.closes_bytes firstFile rfl rfl)
  have hagain := hclosed.step (.opens_text firstFile "C:\\x" (by decide) hx)
  have hanew := hagain.step (.prints_text firstFile "C" (by decide) rfl rfl)
  exact ⟨_, hanew.step (.closes_bytes firstFile rfl rfl)⟩

theorem accounts_for_interleaved :
    ∃ m, FileRun (Semantics.evaluate roundLimit depthLimit) interleaved {} m ∧
      m.open? firstFile = none ∧ m.open? secondFile = some ⟨.text "y", [.int 1, .int 2]⟩ ∧
      m.closed? "C:\\x" = some [.int 67] ∧
      m.drops = [dropReport "C:\\x" [65, 66], dropReport "C:\\x" [67]] := by
  obtain ⟨m, hrun⟩ := exists_interleaved (Semantics.evaluate roundLimit depthLimit)
  have haccounts := accounts_for_files hrun
  refine ⟨m, hrun, ?_, ?_, haccounts.closed_eq "C:\\x", haccounts.drops_eq⟩
  · refine Option.eq_none_iff_forall_ne_some.mpr fun f hf ↦ ?_
    have hlast : interleaved =
        interleaved.dropLast ++ [.closed firstFile "C:\\x" [.int 67]] := rfl
    rw [haccounts.open_iff, hlast, holds_concat, onlyWrites_singleton] at hf
    simp [FileEvent.number, FileEvent.isWrite] at hf
  · have hsplit : interleaved =
        interleaved.take 2 ++ .opened secondFile (.text "y") :: interleaved.drop 3 := rfl
    have hlater : OnlyWrites secondFile (interleaved.drop 3) := by
      unfold OnlyWrites
      decide
    exact (haccounts.open_iff ..).mpr (.opened hsplit hlater)

end FileRun

end Semantics

end VbaTrace
