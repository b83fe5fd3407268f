import VbaTrace.Fault
import VbaTrace.Text.Search

/-!
Continued lines. A line that ends with a blank and an underscore is continued by the next one, and
both become one line.
-/

set_option autoImplicit false

namespace VbaTrace.Source

/-- The ends of continued lines, in the order in which they are removed. -/
def continuations : List String :=
  [" _\r\n", " _\r", " _\n"]

/-- Joins continued lines with a blank between them. -/
def joinContinued (code : String) : String :=
  continuations.foldl (fun s mark ↦ Text.replace mark " " s) code

/-- The text with a line end at its end. -/
def endLine (code : String) : String :=
  if Text.endsWith "\n" code then code else code ++ "\n"

/-- A text without continued lines; an empty text has no last line to end. -/
def collapse (code : String) : Except Fault String :=
  if code.isEmpty then .error .outOfRange else .ok (joinContinued (endLine code))

/-- Whether a line belongs to the header that editors hide. -/
def isHiddenHeader (line : List Char) : Bool :=
  "Attribute VB_".toList.isPrefixOf line && !line.contains ':'

/-- The text without the hidden header at its beginning. -/
def withoutHeader (code : String) : String :=
  let lines := (Text.lines code.toList).map Text.withoutLineEnd
  "\n".intercalate ((lines.dropWhile isHiddenHeader).map String.ofList)

end VbaTrace.Source
