import VbaTrace.Text.Search

/-!
Paths of files. A path leads through directories, which are there, to the file that it names; the part
`.` stays in a directory, and `..` leads to the one that holds it. Paths start in a directory below
the working directory, where nothing else is taken to be. So a path that leaves the working directory
leads nowhere.
-/

set_option autoImplicit false

namespace VbaTrace.Path

/-- The parts of a path between its slashes. -/
def parts (path : String) : List String :=
  (Text.splitOn ['/'] path.toList).map String.ofList

/-- A part that stays where it is. -/
def staysHere (part : String) : Bool :=
  part == "" || part == "."

/-- A file can have this name in a directory. -/
def isFileName (name : String) : Bool :=
  !staysHere name && name != ".." && !name.toList.contains (Char.ofNat 0) && name.utf8ByteSize ≤ 255

/-- Follows a path from the directory `here`. There are `directory` and those that hold it; the last
part names a file. -/
def follow (directory : List String) : List String → List String → Option (List String)
  | _, [] => none
  | here, [name] =>
    if isFileName name && !(here ++ [name]).isPrefixOf directory then some (here ++ [name]) else none
  | here, part :: rest =>
    if staysHere part then follow directory here rest
    else if part == ".." then
      if here.isEmpty then none else follow directory here.dropLast rest
    else if (here ++ [part]).isPrefixOf directory then follow directory (here ++ [part]) rest
    else none

/-- More bytes than a path may have. -/
def byteLimit : Nat := 4096

/-- The place of the file that a path opens for writing from a directory, where it opens one. -/
def place (directory path : String) : Option String :=
  let here := (parts directory).filter fun part ↦ !staysHere part
  if (directory ++ path).utf8ByteSize < byteLimit then
    (follow here here (parts path)).map fun found ↦ "./" ++ "/".intercalate found
  else none

end VbaTrace.Path
