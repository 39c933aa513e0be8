import QueryCompiler.Command.Report
import QueryCompiler.Operator
import QueryCompiler.Dialect.Builtin
import QueryCompiler.Row

/-!
# Tables of text

Columns are padded to the width of their widest cell, counted in characters.
-/
namespace QueryCompiler.Command

def pad (width : Nat) (s : String) : String :=
  s ++ String.ofList (List.replicate (width - s.length) ' ')

def rule (width : Nat) : String := String.ofList (List.replicate width '─')

/-- A value in a table: text without quotes. -/
def cell : Value → String
  | .text s => s
  | v => v.display

/-- Widen columns to the cells of a row; cells beyond the last column do not count. -/
def widen (widths : List Nat) (cells : List String) : List Nat :=
  match widths, cells with
  | width :: widths, cell :: cells => max width cell.length :: widen widths cells
  | widths, [] => widths
  | [], _ => []

def gridLine (mark : String) (widths : List Nat) (cells : List String) : String :=
  mark.intercalate ((cells.zip widths).map fun (cell, width) => pad width cell)

/-- The lines of a table with a header; the columns are those of the first row. -/
def tableLines (columns : List String) (rows : List Row) : List String :=
  let cells := rows.map fun row => row.values.map cell
  let widths := cells.foldl widen (columns.map String.length)
  [gridLine " │ " widths columns, "─┼─".intercalate (widths.map rule)] ++
    cells.map (gridLine " │ " widths) ++ ["", toString rows.length ++ " row(s) returned"]

/-- Rows as a table or as JSON. -/
def rowLines (json : Bool) (rows : List Row) : List String :=
  match rows with
  | [] => ["(no results)"]
  | first :: _ =>
    if json then [(Json.list (rows.map Row.toJson)).pretty] else tableLines first.columns rows

/-- One line of the operator table: the widths are fixed, and the last column is not padded. -/
def operatorLine (cells : List String) : String :=
  " ".intercalate ((cells.zip [5, 22, 15, 14, 14, 0]).map fun (cell, width) => pad width cell)

def operatorCells (op : Operator) : List String :=
  [toString op.rank, op.name, op.arity.label] ++
    Builtin.all.map fun b => (b.dialect.operatorName op.name).getD "-"

def operatorLines : List String :=
  ["sqlweave Operator Reference", "Ranked from tightest to loosest binding.", "",
    operatorLine (["Rank", "Operator", "Arity"] ++ Builtin.all.map Builtin.name), rule 84] ++
    Operator.all.map fun op => operatorLine (operatorCells op)

end QueryCompiler.Command
