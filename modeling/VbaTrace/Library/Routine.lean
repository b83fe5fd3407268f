import VbaTrace.Table

/-!
The names of the built-in routines.
-/

set_option autoImplicit false

namespace VbaTrace

/-- The built-in routines that a program can call. -/
inductive Routine
  | msgBox | shell | len | mid | left | right | builtInDocumentProperties | array | uBound | lBound
  | trim | strConv | split | int | item | strReverse | inStr | replace | sgn | sqr | base64Decode
  | abs | fix | hex | string | cByte | atn | dir | rgb | log | cos | exp | sin | str | val | cInt
  | pmt | day | round | uCase | randomize | cBool | cDate | cStr | cSng | tan | rnd | oct | environ
  | iIf | base64DecodeString | cLng | close | put | run | inStrRev | lCase | rTrim | lTrim | ascW
  | ascB | curDir | lenB | createObject
deriving DecidableEq, Repr

namespace Routine

/-- All routines, in the order in which they are registered. -/
def all : List Routine :=
  [msgBox, shell, len, mid, left, right, builtInDocumentProperties, array, uBound, lBound, trim,
    strConv, split, int, item, strReverse, inStr, replace, sgn, sqr, base64Decode, abs, fix, hex,
    string, cByte, atn, dir, rgb, log, cos, exp, sin, str, val, cInt, pmt, day, round, uCase,
    randomize, cBool, cDate, cStr, cSng, tan, rnd, oct, environ, iIf, base64DecodeString, cLng,
    close, put, run, inStrRev, lCase, rTrim, lTrim, ascW, ascB, curDir, lenB, createObject]

/-- The routine's name as programs usually spell it. -/
def name : Routine → String
  | msgBox => "MsgBox" | shell => "Shell" | len => "Len" | mid => "Mid" | left => "Left"
  | right => "Right" | builtInDocumentProperties => "BuiltInDocumentProperties"
  | array => "Array" | uBound => "UBound" | lBound => "LBound" | trim => "Trim"
  | strConv => "StrConv" | split => "Split" | int => "Int" | item => "Item"
  | strReverse => "StrReverse" | inStr => "InStr" | replace => "Replace" | sgn => "Sgn"
  | sqr => "Sqr" | base64Decode => "Base64Decode" | abs => "Abs" | fix => "Fix" | hex => "Hex"
  | string => "String" | cByte => "CByte" | atn => "Atn" | dir => "Dir" | rgb => "RGB"
  | log => "Log" | cos => "Cos" | exp => "Exp" | sin => "Sin" | str => "Str" | val => "Val"
  | cInt => "CInt" | pmt => "Pmt" | day => "Day" | round => "Round" | uCase => "UCase"
  | randomize => "Randomize" | cBool => "CBool" | cDate => "CDate" | cStr => "CStr"
  | cSng => "CSng" | tan => "Tan" | rnd => "Rnd" | oct => "Oct" | environ => "Environ"
  | iIf => "IIf" | base64DecodeString => "Base64DecodeString" | cLng => "CLng"
  | close => "Close" | put => "Put" | run => "Run" | inStrRev => "InStrRev" | lCase => "LCase"
  | rTrim => "RTrim" | lTrim => "LTrim" | ascW => "AscW" | ascB => "AscB" | curDir => "CurDir"
  | lenB => "LenB" | createObject => "CreateObject"

/-- The key under which a routine is found: its name in lower case. -/
def key (r : Routine) : String :=
  String.ofList (r.name.toList.map Char.toLower)

def byKey : Table Routine :=
  ⟨all.map fun r ↦ (r.key, r)⟩

def find? (key : String) : Option Routine :=
  byKey.find? key

end Routine

end VbaTrace
