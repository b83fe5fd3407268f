import VbaTrace.CommandLine.Files
import VbaTrace.CommandLine.Options
import VbaTrace.Engine.Document

/-!
The command that traces the macros of text files.
-/

set_option autoImplicit false

namespace VbaTrace.CommandLine

def homePage : String := "https://github.com/decalage2/ViperMonkey"

/-- What a command shows first. -/
def banner (program version : String) : String :=
  program ++ " " ++ version ++ " - " ++ homePage ++ "\n" ++
    "THIS IS WORK IN PROGRESS - Check updates regularly!\n" ++
    "Please report any issue at " ++ homePage ++ "/issues\n\n"

def levels : List String :=
  ["debug", "info", "warning", "error", "critical"]

def levelSwitch : Switch :=
  { short := 'l', long? := "loglevel", value? := "LOGLEVEL"
    help := "logging level debug/info/warning/error/critical (default=info)" }

/-- The level of messages has to be one that is known. -/
def checkLevel (i : Invocation) : Command Unit :=
  if (i.settings.find? "l").all levels.contains then return () else throw .missingEntry

/-- The arguments of a command; it ends when they cannot be read, and with the help if asked for. -/
def invoke (program : String) (switches : List Switch) (arguments : List String) :
    Command Invocation := do
  match parse switches arguments with
  | .ok i => return i
  | .error .refused => throw .exit
  | .error .help => do
    Engine.print (helpText program switches)
    throw .exit

namespace Tracer

def program : String := "vmonkey"

def switches : List Switch :=
  [{ short := 'r', help := "find files recursively in subdirectories." },
    { short := 'z', long? := "zip", value? := "ZIP_PASSWORD"
      help := "if the file is a zip archive, open first file from it, using the provided " ++
        "password (requires Python 2.6+)" },
    { short := 'f', long? := "zipfname", value? := "ZIP_FNAME"
      help := "if the file is a zip archive, file(s) to be opened within the zip. " ++
        "Wildcards * and ? are supported. (default:*)" },
    { short := 'e', help := "Extract and evaluate/deobfuscate constant expressions" },
    levelSwitch,
    { short := 'a', help := "Use the alternate line parser (experimental)" },
    { short := 's', long? := "strip"
      help := "Strip useless VB code from macros prior to parsing." },
    { short := 'i', long? := "init", value? := "ENTRY_POINTS"
      help := "Emulate starting at the given function name(s). " ++
        "Use comma seperated list for multiple entries." }]

def description : String :=
  "\nViperMonkey - command line interface\n\n" ++
  "ViperMonkey is a specialized engine to parse, analyze and interpret Microsoft\n" ++
  "VBA macros (Visual Basic for Applications), mainly for malware analysis.\n\n" ++
  "Author: Philippe Lagadec - http://www.decalage.info\n" ++
  "License: BSD, see source code or documentation\n\n" ++
  "Project Repository:\n" ++ homePage ++ "\n"

def entryPoints (i : Invocation) : List String :=
  match i.settings.find? "i" with
  | some names => (Text.splitOn [','] names.toList).map String.ofList
  | none => []

/-- Expressions are only extracted from other kinds of documents than text. -/
def scanDocument (d : Document) : Command Unit := do
  Engine.printFileName d.name
  if d.isText then Engine.printLine "Type: Text"
  Engine.printLine ""

/-- Takes a file as the settings ask for. With a password files have to be archives, which texts are
not. -/
def processFile (i : Invocation) (name text : String) : Command Unit := do
  if i.settings.has "z" then throw .notArchive
  else if i.settings.has "e" then scanDocument ⟨name, text⟩
  else
    let _ ← Engine.traceDocument (i.settings.has "s") (entryPoints i) ⟨name, text⟩

/-- A file that is not there is only named. -/
def processMissing (i : Invocation) (name : String) : Command Unit := do
  Engine.printFileName name
  if i.settings.has "e" then Engine.printLine ""

def processArgument (i : Invocation) (files : Files) (argument : String) : Command Unit := do
  if !isPattern argument && (files.find? argument).isNone then processMissing i argument
  else
    let names :=
      if i.settings.has "r" then matchingFilesUnder files argument
      else matchingFiles files argument
    for name in names do
      processFile i name ((files.find? name).getD "")

/-- The files that the arguments name. -/
def fileNames (arguments : List String) : List String :=
  match parse switches arguments with
  | .ok i => i.arguments
  | .error _ => []

/-- Runs the command on its arguments. -/
def run (arguments : List String) (files : Files) : Command Unit := do
  Engine.print (banner program "0.06")
  let i ← invoke program switches arguments
  if i.arguments.isEmpty then
    Engine.printLine description
    Engine.print (helpText program switches)
    throw .exit
  checkLevel i
  for argument in i.arguments do
    processArgument i files argument

end Tracer

end VbaTrace.CommandLine
