/-!
Tabs replaced by spaces up to the next multiple of eight columns; a column count starts anew after a
line feed or a carriage return.
-/

set_option autoImplicit false

namespace VbaTrace.Text

def tabWidth : Nat := 8

def expandTabsFrom (column : Nat) : List Char → List Char
  | [] => []
  | c :: cs =>
    if c == '\t' then
      let n := tabWidth - column % tabWidth
      List.replicate n ' ' ++ expandTabsFrom (column + n) cs
    else if c == '\n' || c == '\r' then c :: expandTabsFrom 0 cs
    else c :: expandTabsFrom (column + 1) cs

def expandTabs (cs : List Char) : List Char :=
  expandTabsFrom 0 cs

end VbaTrace.Text
