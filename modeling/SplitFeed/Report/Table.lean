/-
# Boxed tables

A table of text with a heading, drawn with box characters: a double rule under the heading,
dashed rules between rows, one blank on either side of a cell.  Cells are padded to the widest
cell of their column, measured in terminal columns.
-/

namespace SplitFeed.Report

/-- On which side a cell is padded. -/
inductive Alignment where
  | left
  | right
deriving DecidableEq, Inhabited

/-- One cell. -/
structure Cell where
  text : String
  alignment : Alignment := .left
deriving DecidableEq, Inhabited

/-- A heading and rows of cells. -/
structure Table where
  heading : List Cell
  rows : List (List Cell)
deriving DecidableEq, Inhabited

/-- Code points drawn two terminal columns wide: East Asian full width and pictographs. -/
def wideRanges : List (Nat × Nat) :=
  [(0x1100, 0x115f), (0x2e80, 0x303e), (0x3041, 0xa4cf), (0xac00, 0xd7a3), (0xf900, 0xfaff),
   (0xfe30, 0xfe6f), (0xff00, 0xff60), (0xffe0, 0xffe6), (0x1f300, 0x1f64f),
   (0x1f680, 0x1f6ff), (0x1f900, 0x1f9ff), (0x20000, 0x3fffd)]

/-- Terminal columns of a character. -/
def columnsOfChar (c : Char) : Nat :=
  if wideRanges.any fun (first, last) => first ≤ c.toNat && c.toNat ≤ last then 2 else 1

/-- Terminal columns of a text. -/
def columns (text : String) : Nat :=
  text.toList.foldl (fun width c => width + columnsOfChar c) 0

namespace Cell

/-- A cell padded to a width, with a blank on either side. -/
def render (width : Nat) (cell : Cell) : String :=
  let padding := "".pushn ' ' (width - columns cell.text)
  match cell.alignment with
  | .left => " " ++ cell.text ++ padding ++ " "
  | .right => " " ++ padding ++ cell.text ++ " "

end Cell

namespace Table

/-- The width of each column: that of its widest cell. -/
def widths (table : Table) : List Nat :=
  table.rows.foldl
    (fun widths row => List.zipWith (fun width cell => max width (columns cell.text)) widths row)
    (table.heading.map fun cell => columns cell.text)

/-- A rule across the table. -/
def rule (first fill cross last : String) (widths : List Nat) : String :=
  first ++ cross.intercalate (widths.map fun width => String.join (List.replicate (width + 2) fill))
    ++ last

/-- One row between the outer borders. -/
def line (widths : List Nat) (row : List Cell) : String :=
  "│" ++ "┆".intercalate (List.zipWith Cell.render widths row) ++ "│"

/-- The lines of the table. -/
def lines (table : Table) : List String :=
  let widths := table.widths
  let dashed := rule "├" "╌" "┼" "┤" widths
  let body := (table.rows.map (line widths)).intersperse dashed
  [rule "┌" "─" "┬" "┐" widths, line widths table.heading, rule "╞" "═" "╪" "╡" widths]
    ++ body ++ [rule "└" "─" "┴" "┘" widths]

end Table

end SplitFeed.Report
