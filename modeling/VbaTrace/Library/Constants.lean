import VbaTrace.Syntax.Node
import VbaTrace.Table

/-!
The constants of the library: styles of message boxes and the names of control characters. Names are
in lower case.
-/

set_option autoImplicit false

namespace VbaTrace.Library

def constants : Table Value := ⟨
  [("vbabortretryignore", .int 2), ("vbapplicationmodal", .int 0), ("vbcritical", .int 16),
    ("vbdefaultbutton1", .int 0), ("vbdefaultbutton2", .int 256), ("vbdefaultbutton3", .int 512),
    ("vbdefaultbutton4", .int 768), ("vbexclamation", .int 48), ("vbinformation", .int 64),
    ("vbmsgboxhelpbutton", .int 16384), ("vbmsgboxright", .int 524288),
    ("vbmsgboxrtlreading", .int 1048576), ("vbmsgboxsetforeground", .int 65536),
    ("vbokcancel", .int 1), ("vbokonly", .int 0), ("vbquestion", .int 32),
    ("vbretrycancel", .int 5), ("vbsystemmodal", .int 4096), ("vbyesno", .int 4),
    ("vbyesnocancel", .int 3), ("vbback", .text "\n"), ("vbcr", .text "\r"),
    ("vbcrlf", .text "\r\n"), ("vbformfeed", .text "\x0c"), ("vblf", .text "\n"),
    ("vbnewline", .text "\r\n"), ("vbnullchar", .text "\x00"), ("vbtab", .text "\t"),
    ("vbverticaltab", .text "\x0b"), ("vbnullstring", .text ""),
    ("vbobjecterror", .int (-2147221504))]⟩

/-- What a lower-case name stands for in the library: a routine or a constant. -/
def entry? (key : String) : Option Value :=
  match Routine.find? key with
  | some r => some (.routine r)
  | none => constants.find? key

end VbaTrace.Library
