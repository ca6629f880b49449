import SourceTidy.Text.Cells

/-!
# Tables

Rows of cells in a frame. Every column is as wide as its widest cell, with a blank on both sides, and the first row is
set off from the others.
-/

namespace SourceTidy.Report

/-- To which side the cells of a column are set. -/
inductive Side where
  | left
  | right
  deriving DecidableEq, Repr

/-- A table: the side and the title of each column, and the rows. -/
structure Table where
  title : Text
  columns : List (Side × Text)
  rows : List (List Text)

namespace Table

/-- The signs of a line of a frame: at the left, between columns, at the right. -/
structure Frame where
  left : Text
  middle : Text
  right : Text

/-- Parts in a line of a frame. -/
def Frame.around (f : Frame) (parts : List Text) : Text := f.left ++ Text.join f.middle parts ++ f.right ++ "\n"

/-- The width of each column. -/
def widths (t : Table) : List Nat :=
  t.columns.zipIdx.map fun ((_, title), i) =>
    t.rows.foldl (fun n row => max n (Text.cells (row[i]?.getD []))) (Text.cells title)

/-- A cell filled up to a width on the other side. -/
def setTo (width : Nat) (side : Side) (t : Text) : Text :=
  match side with
  | .left => Text.padRight width t
  | .right => Text.padLeft width t

/-- The cells of a row, filled up to the widths of their columns. -/
def cellsOf (t : Table) (row : List Text) : List Text :=
  ((t.columns.zip t.widths).zip row).map fun (((side, _), width), cell) => " " ++ setTo width side cell ++ " "

/-- A line of a frame that is filled with a sign. -/
def lineOf (t : Table) (f : Frame) (sign : CodePoint) : Text :=
  f.around (t.widths.map fun n => List.replicate (n + 2) sign)

/-- A table as it is printed. -/
def printed (t : Table) : Text :=
  t.title ++ "\n" ++ t.lineOf ⟨"┏", "┳", "┓"⟩ '━' ++ (⟨"┃", "┃", "┃"⟩ : Frame).around (t.cellsOf (t.columns.map (·.2)))
    ++ t.lineOf ⟨"┡", "╇", "┩"⟩ '━' ++ t.rows.flatMap (fun row => (⟨"│", "│", "│"⟩ : Frame).around (t.cellsOf row))
    ++ t.lineOf ⟨"└", "┴", "┘"⟩ '─'

end Table
end SourceTidy.Report
