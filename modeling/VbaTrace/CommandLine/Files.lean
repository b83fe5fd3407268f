import VbaTrace.CommandLine.Wildcard
import VbaTrace.Table
import VbaTrace.Text.Search

/-!
The files that a command line can name: texts by their paths from the current directory.
-/

set_option autoImplicit false

namespace VbaTrace.CommandLine

abbrev Files := Table String

/-- A path without the current directory in front of it. -/
def plainPath : List Char → List Char
  | '.' :: '/' :: cs => plainPath cs
  | ['.'] => []
  | cs => cs

/-- The directory of a path and the name in it. -/
def splitPath (path : String) : String × String :=
  let directory := Text.beforeLast "/" path
  (directory, Text.afterLast "/" path)

def joinPath (directory name : String) : String :=
  if directory.isEmpty then name else directory ++ "/" ++ name

namespace Files

def find? (files : Files) (path : String) : Option String :=
  Table.find? files (String.ofList (plainPath path.toList))

/-- The names of the files in a directory, in order. -/
def namesIn (files : Files) (directory : String) : List String :=
  let here := String.ofList (plainPath directory.toList)
  let names := files.entries.filterMap fun e ↦
    let (place, name) := splitPath e.1
    if place == here then some name else none
  names.mergeSort fun a b ↦ decide (a ≤ b)

/-- The directories at or under a directory that files are in, each after those that hold it. -/
def directoriesUnder (files : Files) (directory : String) : List String :=
  let here := String.ofList (plainPath directory.toList)
  let places := (files.entries.map fun e ↦ (splitPath e.1).1).eraseDups
  let inner := places.filter fun place ↦
    place != here && (here.isEmpty || Text.startsWith (here ++ "/") place)
  directory :: (inner.mergeSort fun a b ↦ decide (a ≤ b)).map fun place ↦
    joinPath directory (String.ofList (place.toList.drop (if here.isEmpty then 0 else here.length + 1)))

end Files

/-- Bracketed signs stand for themselves and make no pattern. -/
def isPattern (path : String) : Bool :=
  let rest := ["[*]", "[?]", "[[]", "[]]", "[-]"].foldl (fun s part ↦ Text.replace part "" s) path
  let cs := rest.toList
  cs.contains '*' || cs.contains '?' || (cs.contains '[' && cs.contains ']')

def isHidden (name : String) : Bool :=
  Text.startsWith "." name

/-- The files that an argument names, or those that it fits as a pattern. Hidden files fit only
patterns for hidden files. -/
def matchingFiles (files : Files) (argument : String) : List String :=
  if argument.toList.any fun c ↦ c == '*' || c == '?' || c == '[' then
    let (directory, pattern) := splitPath argument
    let names := (files.namesIn directory).filter fun name ↦
      fitsPattern pattern name && (isHidden pattern || !isHidden name)
    names.map (joinPath directory)
  else if (files.find? argument).isSome then [argument]
  else []

/-- The files in and under the directory of an argument that its last part fits. An argument without
a directory fits none. -/
def matchingFilesUnder (files : Files) (argument : String) : List String :=
  let (directory, pattern) := splitPath argument
  if directory.isEmpty then []
  else
    (files.directoriesUnder directory).flatMap fun place ↦
      ((files.namesIn place).filter (fitsPattern pattern)).map (joinPath place)

end VbaTrace.CommandLine
