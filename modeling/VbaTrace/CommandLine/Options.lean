import VbaTrace.Table
import VbaTrace.Text.Wrap

/-!
Switches of a command line. Short switches can be joined (`-as`), a long one can be shortened as long
as it stays the only match, a value follows its switch directly or as the next argument, and `--`
ends the switches. Switches and other arguments may come in any order.
-/

set_option autoImplicit false

namespace VbaTrace.CommandLine

structure Switch where
  short : Char
  long? : Option String := none
  /-- The name of the value, for switches that take one. -/
  value? : Option String := none
  help : String

def helpSwitch : Switch :=
  { short := 'h', long? := "help", help := "show this help message and exit" }

/-- Why a command line is not carried out. -/
inductive Stop
  /-- Help was asked for. -/
  | help
  | refused
deriving DecidableEq, Repr

/-- The values of switches, by their short names, and the other arguments. -/
structure Invocation where
  settings : Table String := {}
  arguments : List String := []

namespace Switch

def key (s : Switch) : String :=
  s.short.toString

def longName? (s : Switch) : Option String :=
  s.long?.map ("--" ++ ·)

/-- The switch with a long name, or the only one whose long name starts so. -/
def ofLong? (switches : List Switch) (name : String) : Option Switch :=
  match switches.find? fun s ↦ s.longName? == some name with
  | some s => some s
  | none =>
    match switches.filter fun s ↦ s.longName?.any (Text.startsWith name) with
    | [s] => some s
    | _ => none

/-- Sets a switch that takes no value. -/
def set (s : Switch) (settings : Table String) : Except Stop (Table String) :=
  if s.short == helpSwitch.short then .error .help else .ok (settings.put s.key "")

end Switch

/-- The settings after an argument, and the switch whose value is the next argument. -/
abbrev Progress := Table String × Option Switch

/-- Reads short switches that are joined. -/
def readShort (switches : List Switch) (settings : Table String) :
    List Char → Except Stop Progress
  | [] => .ok (settings, none)
  | c :: cs =>
    match switches.find? fun s ↦ s.short == c with
    | none => .error .refused
    | some s =>
      if s.value?.isNone then s.set settings >>= fun settings ↦ readShort switches settings cs
      else if cs.isEmpty then .ok (settings, some s)
      else .ok (settings.put s.key (String.ofList cs), none)

/-- Reads a long switch, with its value if it has an equals sign. -/
def readLong (switches : List Switch) (settings : Table String) (argument : String) :
    Except Stop Progress :=
  let name := argument.toList.takeWhile (· != '=')
  match Switch.ofLong? switches (String.ofList name), argument.toList.drop name.length with
  | none, _ => .error .refused
  | some s, [] =>
    if s.value?.isSome then .ok (settings, some s)
    else (s.set settings).map fun settings ↦ (settings, none)
  | some s, _ :: value =>
    if s.value?.isSome then .ok (settings.put s.key (String.ofList value), none)
    else .error .refused

/-- Reads the arguments of a command line. -/
def readArguments (switches : List Switch) (i : Invocation) :
    List String → Except Stop Invocation
  | [] => .ok i
  | argument :: rest =>
    if argument == "--" then .ok { i with arguments := i.arguments ++ rest }
    else if Text.startsWith "-" argument && argument != "-" then
      let progress :=
        if Text.startsWith "--" argument then readLong switches i.settings argument
        else readShort switches i.settings argument.toList.tail
      match progress, rest with
      | .error stop, _ => .error stop
      | .ok (settings, none), rest => readArguments switches { i with settings := settings } rest
      | .ok (_, some _), [] => .error .refused
      | .ok (settings, some s), value :: rest =>
        readArguments switches { i with settings := settings.put s.key value } rest
    else readArguments switches { i with arguments := i.arguments ++ [argument] } rest
termination_by arguments => arguments.length

def parse (switches : List Switch) (arguments : List String) : Except Stop Invocation :=
  readArguments (helpSwitch :: switches) {} arguments

namespace Switch

/-- How a switch is written in the help. -/
def usage (s : Switch) : String :=
  let short := "-" ++ s.key
  match s.longName?, s.value? with
  | none, none => short
  | some long, none => short ++ ", " ++ long
  | none, some value => short ++ " " ++ value
  | some long, some value => short ++ " " ++ value ++ ", " ++ long ++ "=" ++ value

def spaces (n : Nat) : String :=
  String.ofList (List.replicate n ' ')

/-- The help on a switch. It stands in a column of its own, from the same line on if the switch is
short enough. -/
def helpLines (s : Switch) : String :=
  let help := "\n".intercalate
    ((Text.wrap 54 s.help.toList).map fun line ↦ spaces 24 ++ String.ofList line)
  if s.usage.length > 20 then "  " ++ s.usage ++ "\n" ++ help ++ "\n"
  else "  " ++ s.usage ++ String.ofList (help.toList.drop (2 + s.usage.length)) ++ "\n"

end Switch

def helpText (program : String) (switches : List Switch) : String :=
  "Usage: " ++ program ++ " [options] <filename> [filename2 ...]\n\nOptions:\n" ++
    String.join ((helpSwitch :: switches).map Switch.helpLines)

end VbaTrace.CommandLine
