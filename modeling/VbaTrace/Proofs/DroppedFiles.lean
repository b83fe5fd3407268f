import Mathlib.Data.List.Basic
import Mathlib.Data.List.Perm.Subperm
import VbaTrace.Proofs.FileContents

/-!
The kept files. A file that is closed is kept where the last part of its name leads from the directory
for dropped files, in whatever file system, and only if the name has more parts than one. So every
place holds the bytes that were last closed there (`DropRun.find?_dropped`). Each closed file has a
file of its own exactly when all of them lead to places and no two to the same
(`DropRun.keepsAll_iff`).
-/

set_option autoImplicit false

namespace VbaTrace

/-- A file when it was closed. -/
structure DroppedFile where
  name : String
  bytes : List UInt8

namespace DroppedFile

variable {m : Machine} {place : String} {d : DroppedFile} {ds : List DroppedFile}

/-- The place at which a machine keeps the file. -/
def place? (m : Machine) (d : DroppedFile) : Option String :=
  Library.keptAt? m d.name

/-- The bytes of the last of the files that are kept at a place. -/
def latestAt (m : Machine) (place : String) : List DroppedFile → Option (List UInt8)
  | [] => none
  | d :: ds =>
    (latestAt m place ds).or (if d.place? m = some place then some d.bytes else none)

theorem latestAt_concat (m : Machine) (place : String) (ds : List DroppedFile) (d : DroppedFile) :
    latestAt m place (ds ++ [d]) =
      if d.place? m = some place then some d.bytes else latestAt m place ds := by
  induction ds with
  | nil => simp [latestAt]
  | cons x xs ih => by_cases h : d.place? m = some place <;> simp [latestAt, ih, h]

theorem mem_places_of_latestAt {bytes : List UInt8} (h : latestAt m place ds = some bytes) :
    place ∈ ds.filterMap (place? m) := by
  induction ds with
  | nil => simp [latestAt] at h
  | cons x xs ih =>
    rcases Option.or_eq_some_iff.mp h with hlater | ⟨-, hfirst⟩
    · obtain ⟨y, hy, hplace⟩ := List.mem_filterMap.mp (ih hlater)
      exact List.mem_filterMap.mpr ⟨y, List.mem_cons_of_mem x hy, hplace⟩
    · by_cases hx : x.place? m = some place
      · exact List.mem_filterMap.mpr ⟨x, List.mem_cons_self, hx⟩
      · simp [hx] at hfirst

theorem latestAt_of_nodup (hnodup : (ds.filterMap (place? m)).Nodup) (hd : d ∈ ds)
    (hplace : d.place? m = some place) : latestAt m place ds = some d.bytes := by
  induction ds with
  | nil => exact absurd hd List.not_mem_nil
  | cons x xs ih =>
    rcases List.mem_cons.mp hd with rfl | hd
    · rw [List.filterMap_cons_some hplace, List.nodup_cons] at hnodup
      cases hlater : latestAt m place xs with
      | none => simp [latestAt, hlater, hplace]
      | some bytes => exact absurd (mem_places_of_latestAt hlater) hnodup.1
    · have hrest : (xs.filterMap (place? m)).Nodup :=
        hnodup.sublist ((List.sublist_cons_self x xs).filterMap _)
      rw [latestAt, ih hrest hd, Option.some_or]

end DroppedFile

open DroppedFile

/-- Each of the closed files has a kept file of its own, with its bytes. -/
def Machine.KeepsAll (m : Machine) (ds : List DroppedFile) : Prop :=
  ∃ places : List String, places.Nodup ∧ places.map m.dropped.find? = ds.map fun d ↦ some d.bytes

namespace Semantics

/-- The files that are closed in a run, in whichever frames, with anything between them that leaves
the kept files, their directory and the file system alone. -/
inductive DropRun (evaluate : Evaluator) : List DroppedFile → Machine → Machine → Prop
  | start (m : Machine) : DropRun evaluate [] m m
  | between {ds : List DroppedFile} {m₀ m m' : Machine} :
    DropRun evaluate ds m₀ m → m'.dropDirectory = m.dropDirectory → m'.placeOf = m.placeOf →
    m'.dropped = m.dropped → DropRun evaluate ds m₀ m'
  | closes {ds : List DroppedFile} {m₀ m m' : Machine} {number : FileNumber} {name : String}
      {contents : List Value} {v : Value} :
    DropRun evaluate ds m₀ m → m.open? number = some ⟨.text name, contents⟩ →
    Routine.close.call evaluate (some [.text number.text]) m = .ok v m' →
    DropRun evaluate (ds ++ [⟨name, fileBytes contents⟩]) m₀ m'

namespace DropRun

variable {evaluate : Evaluator} {ds : List DroppedFile} {m₀ m m' : Machine}

theorem keptAt?_eq (h : DropRun evaluate ds m₀ m) : Library.keptAt? m = Library.keptAt? m₀ := by
  induction h with
  | start => rfl
  | between _ hdirectory hplaceOf _ ih =>
    rw [← ih]
    unfold Library.keptAt?
    rw [hdirectory, hplaceOf]
  | closes _ hopen hrun ih =>
    obtain ⟨-, rfl⟩ := Library.close_eq_ok_of_open hopen hrun
    exact ih

/-- One more file goes to its place, if it has one. -/
theorem find?_keeping (m : Machine) (name : String) (bytes : List UInt8) (place : String) :
    (m.keeping name bytes).find? place =
      if Library.keptAt? m name = some place then some bytes else m.dropped.find? place := by
  rw [Machine.keeping]
  cases Library.keptAt? m name <;> simp

theorem find?_dropped (h : DropRun evaluate ds m₀ m) (place : String) :
    m.dropped.find? place = (latestAt m₀ place ds).or (m₀.dropped.find? place) := by
  induction h with
  | start => rfl
  | between _ _ _ hsame ih => rw [hsame, ih]
  | @closes ds m₀ m m' number name contents v hrun hopen hclose ih =>
    obtain ⟨-, rfl⟩ := Library.close_eq_ok_of_open hopen hclose
    have hkeeping := find?_keeping m name (fileBytes contents) place
    rw [latestAt_concat, place?]
    rw [hrun.keptAt?_eq, ih] at hkeeping
    refine hkeeping.trans ?_
    split <;> rfl

/-- The places of files of their own are those to which the files lead, each once. -/
theorem keepsAll_iff (h : DropRun evaluate ds m₀ m)
    (hnew : ∀ place, m₀.dropped.find? place = none) :
    m.KeepsAll ds ↔ (∀ d ∈ ds, (d.place? m₀).isSome = true) ∧
      (ds.filterMap (place? m₀)).Nodup := by
  have hfind : ∀ place, m.dropped.find? place = latestAt m₀ place ds := fun place ↦ by
    rw [h.find?_dropped, hnew, Option.or_none]
  constructor
  · rintro ⟨places, hnodup, hplaces⟩
    have hsubset : places ⊆ ds.filterMap (place? m₀) := by
      intro place hplace
      have hfound := List.mem_map_of_mem (f := m.dropped.find?) hplace
      rw [hplaces] at hfound
      obtain ⟨d, -, hd⟩ := List.mem_map.mp hfound
      exact mem_places_of_latestAt ((hfind place).symm.trans hd.symm)
    have hlength : places.length = ds.length := by simpa using congrArg List.length hplaces
    have hsubperm := List.subperm_of_subset hnodup hsubset
    have hle : (ds.filterMap (place? m₀)).length ≤ places.length :=
      hlength ▸ List.length_filterMap_le _ ds
    have hperm := hsubperm.perm_of_length_le hle
    refine ⟨List.filterMap_length_eq_length.mp (hperm.length_eq.symm.trans hlength), ?_⟩
    exact hperm.nodup_iff.mp hnodup
  · rintro ⟨hall, hnodup⟩
    refine ⟨ds.filterMap (place? m₀), hnodup, ?_⟩
    rw [List.map_filterMap, List.filterMap_eq_map_iff_forall_eq_some]
    intro d hd
    obtain ⟨place, hplace⟩ := Option.isSome_iff_exists.mp (hall d hd)
    rw [hplace, Option.map_some, hfind, latestAt_of_nodup hnodup hd hplace]

/-- At every place there is a file with the bytes that were last closed there. Each closed file has
a file of its own exactly when every name leads to a place, and no two to the same. That holds in
whatever file system. -/
theorem directory_holds_latest (h : DropRun evaluate ds m₀ m)
    (hnew : ∀ place, m₀.dropped.find? place = none) :
    (∀ place, m.dropped.find? place = latestAt m₀ place ds) ∧
      (m.KeepsAll ds ↔ (∀ d ∈ ds, (d.place? m₀).isSome = true) ∧
        (ds.filterMap (place? m₀)).Nodup) := by
  refine ⟨fun place ↦ ?_, h.keepsAll_iff hnew⟩
  rw [h.find?_dropped, hnew, Option.or_none]

end DropRun

/-! Files that are written one after the other -/

section

variable {evaluate : Evaluator} {es : List FileEvent} {ds : List DroppedFile}
  {m₀ m : Machine}

/-- A file is opened, written and closed. -/
theorem exists_dropping (number : FileNumber) (name s : String) {bytes : List UInt8}
    (hfiles : FileRun evaluate es m₀ m) (hdrops : DropRun evaluate ds m₀ m)
    (hname : '.' ∉ name.toList) (hfree : m.resolve? name = none) (hs : '.' ∉ s.toList)
    (hitems : (Library.itemsToWrite (.text s)).isEmpty = false)
    (hbytes : (Library.itemsToWrite (.text s)).mapM Library.byteOf = .ok bytes) :
    ∃ es' m', FileRun evaluate es' m₀ m' ∧
      DropRun evaluate (ds ++ [⟨name, bytes⟩]) m₀ m' ∧ m'.resolve? = m.resolve? := by
  let opened := m.holding number.text ⟨.text name, []⟩
  let written := opened.holding number.text ⟨.text name, Library.itemsToWrite (.text s)⟩
  have hopened : opened.open? number = some ⟨.text name, []⟩ := by
    rw [FileEvent.open?_holding, if_pos rfl]
  have hwritten : written.open? number = some ⟨.text name, Library.itemsToWrite (.text s)⟩ := by
    rw [FileEvent.open?_holding, if_pos rfl]
  have hclose := Library.close_of_open number.marked hwritten hbytes
  have hopen := hfiles.step (.opens_text number name hname hfree)
  have hwrite := hopen.step (.prints_text number s hs hitems hopened)
  have hkept : DropRun evaluate ds m₀ written := hdrops.between rfl rfl rfl
  rw [Library.mapM_byteOf hbytes]
  exact ⟨_, _, hwrite.step (.closes hwritten hclose), hkept.closes hwritten hclose, rfl⟩

/-- Two files are written one after the other, in a directory that was empty. -/
theorem exists_dropping_both (evaluate : Evaluator) (first second : String)
    (hfirst : '.' ∉ first.toList) (hsecond : '.' ∉ second.toList)
    (hfree : ({} : Machine).resolve? first = none) (hfree' : ({} : Machine).resolve? second = none) :
    ∃ es m, FileRun evaluate es { dropDirectory := some "out/" } m ∧
      DropRun evaluate [⟨first, [65]⟩, ⟨second, [66]⟩] { dropDirectory := some "out/" } m := by
  obtain ⟨_, m₁, hfiles, hdrops, hsame⟩ := exists_dropping FileRun.firstFile first "A"
    (.start { dropDirectory := some "out/" }) (.start _) hfirst hfree (by decide) rfl rfl
  obtain ⟨es, m, hfiles, hdrops, -⟩ := exists_dropping FileRun.firstFile second "B" hfiles hdrops
    hsecond (hsame ▸ hfree') (by decide) rfl rfl
  exact ⟨es, m, hfiles, hdrops⟩

end

theorem DropRun.directory_holds_both :
    ∃ es m, FileRun (evaluate roundLimit depthLimit) es { dropDirectory := some "out/" } m ∧
      m.KeepsAll [⟨"C:\\x", [65]⟩, ⟨"C:\\y", [66]⟩] := by
  obtain ⟨es, m, hfiles, hdrops⟩ := exists_dropping_both (evaluate roundLimit depthLimit) "C:\\x"
    "C:\\y" (by decide) (by decide) (by decide +kernel) (by decide +kernel)
  have hholds := directory_holds_latest hdrops fun _ ↦ rfl
  exact ⟨es, m, hfiles, hholds.2.mpr ⟨by decide +kernel, by decide +kernel⟩⟩

/-- The second file takes the place of the first, which has the same last part in its name. -/
theorem DropRun.same_short_name_overwrites :
    ∃ es m, FileRun (evaluate roundLimit depthLimit) es { dropDirectory := some "out/" } m ∧
      DropRun (evaluate roundLimit depthLimit) [⟨"C:\\x", [65]⟩, ⟨"C:\\x", [66]⟩]
        { dropDirectory := some "out/" } m ∧
      ¬ m.KeepsAll [⟨"C:\\x", [65]⟩, ⟨"C:\\x", [66]⟩] := by
  obtain ⟨es, m, hfiles, hdrops⟩ := exists_dropping_both (evaluate roundLimit depthLimit) "C:\\x"
    "C:\\x" (by decide) (by decide) (by decide +kernel) (by decide +kernel)
  refine ⟨es, m, hfiles, hdrops, fun hkeeps ↦ ?_⟩
  have hpaths := ((hdrops.keepsAll_iff fun _ ↦ rfl).mp hkeeps).2
  exact absurd hpaths (by decide +kernel)

end Semantics

end VbaTrace
