import VbaTrace.CommandLine.Shell

/-!
The program on a terminal. It traces the files that it is given; with `shell` as its first argument
it reads commands from its input instead.
-/

set_option autoImplicit false

namespace VbaTrace.CommandLine

/-- The texts of those files that are there. -/
def readFiles (names : List String) : IO Files := do
  let mut files : Files := {}
  for name in names do
    try
      let text ← IO.FS.readFile name
      files := files.put (String.ofList (plainPath name.toList)) text
    catch _ => pure ()
  return files

/-- The lines of the input up to its end. -/
partial def readInput (input : IO.FS.Stream) (lines : Array String) : IO (Array String) := do
  let line ← input.getLine
  if line.isEmpty then return lines
  else
    let text := if Text.endsWith "\n" line then String.ofList line.toList.dropLast else line
    readInput input (lines.push text)

/-- Writes the files that a traced program dropped. -/
def writeDropped (dropped : Table (List UInt8)) : IO Unit := do
  for (path, bytes) in dropped.entries do
    IO.FS.createDirAll (splitPath path).1
    IO.FS.writeBinFile path (ByteArray.mk bytes.toArray)

/-- Runs a command on a new engine and shows what it prints. -/
def carryOut (c : Command Unit) : IO UInt32 := do
  let (result, e) : Except Fault Unit × Engine :=
    match c {} with
    | .ok a e => (.ok a, e)
    | .error f e => (.error f, e)
  IO.print e.printed
  writeDropped e.machine.dropped
  match result with
  | .ok _ | .error .exit => return 0
  | .error f =>
    IO.eprintln (f.message?.getD (toString (repr f)))
    return 1

end VbaTrace.CommandLine

open VbaTrace CommandLine in
def main (arguments : List String) : IO UInt32 := do
  match arguments with
  | "shell" :: rest =>
    let files ← readFiles (Shell.fileNames rest)
    let lines ← readInput (← IO.getStdin) #[]
    carryOut (Shell.run rest files lines.toList)
  | _ =>
    let files ← readFiles (Tracer.fileNames arguments)
    carryOut (Tracer.run arguments files)
