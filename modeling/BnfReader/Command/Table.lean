import BnfReader.Command.Layout
import BnfReader.Number.Binary64

/-! Tables with a title, a heading and lines around every column.

Each column is as wide as its widest line, with a blank on either side. If the table does
not fit, the widest columns give way first, down to the width of the next. -/
namespace BnfReader

/-- A column by its heading. -/
structure Column where
  heading : String
  align : Layout.Align

/-- A table. -/
structure Table where
  title : String
  columns : List Column
  rows : List (List String)

namespace Table

/-! ### Widths -/

/-- The sum of widths. -/
def total (ws : List Nat) : Nat := ws.foldl (· + ·) 0

/-- Widths reduced by a total amount, shared by those that are marked, each by at most
`limit`. Shares are rounded to the nearest whole number, halves to even. -/
def reduce : Nat → Nat → Nat → List (Bool × Nat) → List Nat
  | _, _, _, [] => []
  | amount, sharers, limit, (marked, w) :: rest =>
    if marked ∧ 0 < sharers then
      let share := min limit (Binary64.roundDiv amount sharers)
      (w - share) :: reduce (amount - share) (sharers - 1) limit rest
    else w :: reduce amount sharers limit rest

/-- Widths brought down to the room there is by the widest giving way; `fuel` bounds the rounds. -/
def collapse (room : Nat) : Nat → List Nat → List Nat
  | 0, ws => ws
  | fuel + 1, ws =>
    let excess := total ws - room
    let widest := ws.foldl max 0
    let second := (ws.filter (· ≠ widest)).foldl max 0
    if excess = 0 ∨ widest = second then ws
    else
      let marked := ws.map fun w => (decide (w = widest), w)
      let sharers := (ws.filter (· = widest)).length
      collapse room fuel (reduce excess sharers (min excess (widest - second)) marked)

/-- The widths of the columns, blanks included, when so much room is left for them. -/
def widths (t : Table) (room : Nat) : List Nat :=
  let natural := t.columns.zipIdx.map fun (column, i) =>
    let cells := t.rows.map fun row => Layout.naturalWidth (row[i]?.getD "")
    min room ((Layout.naturalWidth column.heading :: cells).foldl max 0 + 2)
  if total natural ≤ room then natural else collapse room (total natural - room) natural

/-! ### Lines -/

/-- The characters of a line: its left end, the filling, what stands between columns, and
its right end. -/
structure Border where
  left : Char
  fill : Char
  cross : Char
  right : Char

/-- A line without text. -/
def Border.line (r : Border) (ws : List Nat) : List Char :=
  r.left :: [r.cross].intercalate (ws.map fun w => List.replicate w r.fill) ++ [r.right]

/-- The line above the headings. -/
def topBorder : Border := ⟨'┏', '━', '┳', '┓'⟩
/-- The line below the headings. -/
def headBorder : Border := ⟨'┡', '━', '╇', '┩'⟩
/-- The line at the end. -/
def bottomBorder : Border := ⟨'└', '─', '┴', '┘'⟩

/-- A row of texts over as many lines as the longest of them needs. -/
def row (bar : Char) (columns : List Column) (ws : List Nat) (cells : List String) :
    List (List Char) :=
  let blocks := (columns.zip (ws.zip cells)).map fun (column, w, cell) =>
    (w - 2, Layout.block column.align .ellipsis (w - 2) cell)
  let height := (blocks.map fun b => b.2.length).foldl max 0
  (List.range height).map fun i =>
    bar :: [bar].intercalate (blocks.map fun (w, lines) =>
      ' ' :: (lines[i]?.getD (Layout.blanks w)) ++ [' ']) ++ [bar]

/-- A table in a given width. -/
def render (t : Table) (room : Nat) : String :=
  let ws := t.widths (room - (t.columns.length + 1))
  let whole := total ws + t.columns.length + 1
  let headings := row '┃' t.columns ws (t.columns.map Column.heading)
  let lines := Layout.block .center .fold whole t.title ++ [topBorder.line ws] ++ headings ++
    [headBorder.line ws] ++ t.rows.flatMap (row '│' t.columns ws) ++ [bottomBorder.line ws]
  String.join (lines.map fun line => String.ofList line ++ "\n")

end Table
end BnfReader
