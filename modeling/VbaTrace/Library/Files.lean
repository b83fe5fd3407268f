import VbaTrace.Encoding.Sha256
import VbaTrace.Library.Arguments
import VbaTrace.Machine.Basic
import VbaTrace.Text.Search
import VbaTrace.Value.Compare

/-!
Emulated files. Opening a file number starts with no contents, writing adds the numbers of a text's
characters or the items of a list, and closing moves the contents to the closed files and records
their digest.
-/

set_option autoImplicit false

namespace VbaTrace.Library

/-- What writing a value adds to a file; values that are neither texts nor lists add nothing. -/
def itemsToWrite : Value → List Value
  | .text s => s.toList.map fun c ↦ .int c.toNat
  | .list vs => vs
  | _ => []

/-- An open file by its number. -/
def openFile (m : Machine) (number : Value) : Except Fault (String × OpenFile) :=
  match number with
  | .text key =>
    match m.frame.openFiles.find? key with
    | some f => .ok (key, f)
    | none => .error .missingEntry
  | .list _ | .array _ => .error .wrongType
  | _ => .error .missingEntry

/-- Adds to an open file. That the file is open matters only when there is something to add. -/
def appendToFile (number data : Value) : Eval Unit := do
  let items := itemsToWrite (← opened data)
  if items.isEmpty then return ()
  let (key, f) ← Eval.ofExcept (openFile (← get) number)
  modifyFrame fun fr ↦
    { fr with openFiles := fr.openFiles.put key { f with contents := f.contents ++ items } }

/-- Starts a file anew. -/
def startFile (key : String) (name : Value) : Eval Unit :=
  modifyFrame fun fr ↦ { fr with openFiles := fr.openFiles.put key ⟨name, []⟩ }

def put (args : List Value) : Eval Value := do
  Eval.ofExcept (require (args.length == 2 || args.length == 3))
  appendToFile (args.getD 0 .null) (args.getD (args.length - 1) .null)
  return .null

def byteOf (v : Value) : Except Fault UInt8 :=
  match v.asInt? with
  | some n => if 0 ≤ n && n ≤ 255 then .ok (UInt8.ofNat n.toNat) else .error .overflow
  | none => .error .wrongType

/-- The closed files after one more; it takes the place of a file whose name equals its own, and then
has the name of that one. -/
def addClosed (f : ClosedFile) : List ClosedFile → List ClosedFile
  | [] => [f]
  | g :: gs =>
    if g.name.equals f.name then { g with contents := f.contents } :: gs else g :: addClosed f gs

/-- The place at which a dropped file is kept: where the last part of its name leads from the
directory for such files. A name without a directory part leads nowhere. -/
def keptAt? (m : Machine) (name : String) : Option String :=
  m.dropDirectory.bind fun directory ↦
    if Text.contains "\\" name then
      m.placeOf directory (Text.trimmed (Text.afterLast "\\" name))
    else none

/-- Keeps a dropped file, in place of one that was kept there before. -/
def keepDropped (name : String) (bytes : List UInt8) : Eval Unit :=
  modify fun m ↦
    match keptAt? m name with
    | some place => { m with dropped := m.dropped.put place bytes }
    | none => m

def close (args : List Value) : Eval Value := do
  match args with
  | [number] =>
    match ← opened number with
    | .text key =>
      if !Text.startsWith "#" key then return .null
      let (key, f) ← Eval.ofExcept (openFile (← get) (.text key))
      if f.name.isList then throw .wrongType
      modifyFrame fun fr ↦
        { fr with
          closedFiles := addClosed ⟨f.name, f.contents⟩ fr.closedFiles
          openFiles := fr.openFiles.erase key }
      let bytes ← Eval.ofExcept (f.contents.mapM byteOf)
      match f.name with
      | .text name =>
        report (.text "Dropped File Hash") (.text (Encoding.sha256 bytes))
          (.text ("File Name: " ++ name))
        keepDropped name bytes
        return .null
      | _ => throw .wrongType
    | v => throw v.lacking
  | _ => return .null

end VbaTrace.Library
