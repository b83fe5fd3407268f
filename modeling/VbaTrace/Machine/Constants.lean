import VbaTrace.Syntax.Node
import VbaTrace.Table

/-!
The constants that every frame finds among the global names: key codes, the directory attribute, the
empty text, the null character and the kinds of text conversion. Names are in lower case.
-/

set_option autoImplicit false

namespace VbaTrace

def globalConstants : Table Value := ⟨
  [("vbdirectory", .text "vbDirectory"), ("vbkeylbutton", .int 1), ("vbkeyrbutton", .int 2),
    ("vbkeycancel", .int 3), ("vbkeymbutton", .int 4), ("vbkeyback", .int 8), ("vbkeytab", .int 9),
    ("vbkeyclear", .int 12), ("vbkeyreturn", .int 13), ("vbkeyshift", .int 16),
    ("vbkeycontrol", .int 17), ("vbkeymenu", .int 18), ("vbkeypause", .int 19),
    ("vbkeycapital", .int 20), ("vbkeyescape", .int 27), ("vbkeyspace", .int 32),
    ("vbkeypageup", .int 33), ("vbkeypagedown", .int 34), ("vbkeyend", .int 35),
    ("vbkeyhome", .int 36), ("vbkeyleft", .int 37), ("vbkeyup", .int 38), ("vbkeyright", .int 39),
    ("vbkeydown", .int 40), ("vbkeyselect", .int 41), ("vbkeyprint", .int 42),
    ("vbkeyexecute", .int 43), ("vbkeysnapshot", .int 44), ("vbkeyinsert", .int 45),
    ("vbkeydelete", .int 46), ("vbkeyhelp", .int 47), ("vbkeynumlock", .int 144),
    ("vbkeya", .int 65), ("vbkeyb", .int 66), ("vbkeyc", .int 67), ("vbkeyd", .int 68),
    ("vbkeye", .int 69), ("vbkeyf", .int 70), ("vbkeyg", .int 71), ("vbkeyh", .int 72),
    ("vbkeyi", .int 73), ("vbkeyj", .int 74), ("vbkeyk", .int 75), ("vbkeyl", .int 76),
    ("vbkeym", .int 77), ("vbkeyn", .int 78), ("vbkeyo", .int 79), ("vbkeyp", .int 80),
    ("vbkeyq", .int 81), ("vbkeyr", .int 82), ("vbkeys", .int 83), ("vbkeyt", .int 84),
    ("vbkeyu", .int 85), ("vbkeyv", .int 86), ("vbkeyw", .int 87), ("vbkeyx", .int 88),
    ("vbkeyy", .int 89), ("vbkeyz", .int 90), ("vbkey0", .int 48), ("vbkey1", .int 49),
    ("vbkey2", .int 50), ("vbkey3", .int 51), ("vbkey4", .int 52), ("vbkey5", .int 53),
    ("vbkey6", .int 54), ("vbkey7", .int 55), ("vbkey8", .int 56), ("vbkey9", .int 57),
    ("vbkeynumpad0", .int 96), ("vbkeynumpad1", .int 97), ("vbkeynumpad2", .int 98),
    ("vbkeynumpad3", .int 99), ("vbkeynumpad4", .int 100), ("vbkeynumpad5", .int 101),
    ("vbkeynumpad6", .int 102), ("vbkeynumpad7", .int 103), ("vbkeynumpad8", .int 104),
    ("vbkeynumpad9", .int 105), ("vbkeymultiply", .int 106), ("vbkeyadd", .int 107),
    ("vbkeyseparator", .int 108), ("vbkeysubtract", .int 109), ("vbkeydecimal", .int 110),
    ("vbkeydivide", .int 111), ("vbkeyf1", .int 112), ("vbkeyf2", .int 113), ("vbkeyf3", .int 114),
    ("vbkeyf4", .int 115), ("vbkeyf5", .int 116), ("vbkeyf6", .int 117), ("vbkeyf7", .int 118),
    ("vbkeyf8", .int 119), ("vbkeyf9", .int 120), ("vbkeyf10", .int 121), ("vbkeyf11", .int 122),
    ("vbkeyf12", .int 123), ("vbkeyf13", .int 124), ("vbkeyf14", .int 125), ("vbkeyf15", .int 126),
    ("vbkeyf16", .int 127), ("vbnullstring", .text ""), ("vbnullchar", .text "\x00"),
    ("vbuppercase", .int 1), ("vblowercase", .int 2), ("vbpropercase", .int 3), ("vbwide", .int 4),
    ("vbnarrow", .int 8), ("vbkatakana", .int 16), ("vbhiragana", .int 32), ("vbunicode", .int 64),
    ("vbfromunicode", .int 128)]⟩

/-- The name of a global constant. -/
def isConstantName (name : String) : Bool :=
  globalConstants.has name

end VbaTrace
