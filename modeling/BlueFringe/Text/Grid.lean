import BlueFringe.Text.Style

/-!
# Grids

Tables drawn with plain characters: a rule above, between and below all rows, cells flush left with
one blank on either side, each column as wide as its widest cell. A cell with line feeds takes up
several lines. Control sequences in a cell have no width.
-/

namespace BlueFringe.Text

/-- The lines of a cell, ready to be drawn. -/
structure Cell where
  lines : List (List Char)

namespace Cell

/-- The cell with a text. -/
def ofText (text : String) : Cell := ⟨styledLines text.toList⟩

/-- The columns that the widest line takes up. -/
def width (cell : Cell) : Nat :=
  (cell.lines.map Text.width).foldl max 0

/-- Line `i` of the cell, blank below the text, filled up to `columns`. -/
def line (cell : Cell) (columns i : Nat) : String :=
  let cs := (cell.lines[i]?).getD []
  String.ofList (cs ++ List.replicate (columns - Text.width cs) ' ')

end Cell

namespace Grid

/-- The width of each column; a row without a cell there does not count. -/
def columnWidths : List (List Cell) → List Nat
  | [] => []
  | row :: rest => widest (row.map Cell.width) (columnWidths rest)
where
  /-- The larger of two widths in each column. -/
  widest : List Nat → List Nat → List Nat
    | [], ns => ns
    | ms, [] => ms
    | m :: ms, n :: ns => max m n :: widest ms ns

/-- The rule that stands above, between and below the rows. -/
def rule (widths : List Nat) : String :=
  "+" ++ String.join (widths.map fun w => String.ofList (List.replicate (w + 2) '-') ++ "+")

/-- The lines of one row. -/
def rowLines (widths : List Nat) (row : List Cell) : List String :=
  let height := (row.map fun cell => cell.lines.length).foldl max 0
  (List.range height).map fun i =>
    "|" ++ String.join ((row.zip widths).map fun cell => " " ++ cell.1.line cell.2 i ++ " |")

/-- The picture of rows of texts, without a line feed at the end. -/
def draw (texts : List (List String)) : String :=
  let rows := texts.map fun row => row.map Cell.ofText
  let widths := columnWidths rows
  "\n".intercalate (rule widths :: rows.flatMap fun row => rowLines widths row ++ [rule widths])

end Grid

end BlueFringe.Text
