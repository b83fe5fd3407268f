import VbaTrace.Text.Width
import VbaTrace.Text.Wrap

/-!
Grids of texts with a title over each column. A column is as wide as its title or its widest cell,
but a cell widens it only up to the limit of the column; longer lines of a cell are broken.
-/

set_option autoImplicit false

namespace VbaTrace.Report

structure Column where
  title : String
  /-- The width up to which cells widen the column. -/
  limit : Nat

/-- The lines of a cell. -/
abbrev Cell := List (List Char)

def Cell.ofString (s : String) : Cell :=
  Text.splitOn ['\n'] s.toList

/-- The width of the widest line; lines without a width do not count. -/
def Cell.width (c : Cell) : Nat :=
  c.foldl (fun n line ↦ max n ((Text.width? line).getD 0)) 0

/-- The width of a column of cells. -/
def Column.width (col : Column) (cells : List Cell) : Nat :=
  cells.foldl (fun n c ↦ max n (min c.width col.limit)) (Cell.ofString col.title).width

/-- Breaks the lines of a cell that are wider than the column. A line of spaces alone leaves an empty
line. -/
def Cell.fit (width : Nat) (c : Cell) : Cell :=
  c.flatMap fun line ↦
    if (Text.width? line).any fun w ↦ width < w then
      match Text.wrap width line with
      | [] => [[]]
      | lines => lines
    else [line]

/-- Fills a line up with spaces. A line without a width counts as one column less than nothing. -/
def pad (width : Nat) (line : List Char) : List Char :=
  let missing :=
    match Text.width? line with
    | some w => width - w
    | none => width + 1
  line ++ List.replicate missing ' '

/-- The texts of one row of cells, line by line. -/
def rowLines (widths : List Nat) (cells : List Cell) : List (List Char) :=
  let fitted := (widths.zip cells).map fun p ↦ (p.1, p.2.fit p.1)
  let height := fitted.foldl (fun n p ↦ max n p.2.length) 0
  (List.range height).map fun y ↦
    '|' :: fitted.flatMap fun p ↦ ' ' :: pad p.1 (p.2.getD y []) ++ [' ', '|']

/-- A line between rows. -/
def rule (widths : List Nat) : List Char :=
  '+' :: widths.flatMap fun w ↦ List.replicate (w + 2) '-' ++ ['+']

/-- The cells of one column. -/
def columnCells (rows : List (List Cell)) (i : Nat) : List Cell :=
  rows.map fun row ↦ row.getD i [[]]

/-- The grid, without a line end after its last line. -/
def grid (columns : List Column) (rows : List (List String)) : String :=
  let cells := rows.map fun row ↦ row.map Cell.ofString
  let widths := columns.zipIdx.map fun c ↦ c.1.width (columnCells cells c.2)
  let titles := columns.map fun c ↦ Cell.ofString c.title
  let lines :=
    [rule widths] ++ rowLines widths titles ++ [rule widths] ++ cells.flatMap (rowLines widths) ++
      [rule widths]
  "\n".intercalate (lines.map String.ofList)

end VbaTrace.Report
