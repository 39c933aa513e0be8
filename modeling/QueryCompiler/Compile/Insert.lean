import QueryCompiler.Compile.Table

/-!
# Compiling insertions

A single row is given by expressions, or by values that become parameters. Several rows are
written inline and made equally wide: too short a row is filled with nulls, too long a one refused.
-/
namespace QueryCompiler

/-- A single row with its columns. -/
def rowSql (d : Dialect) (columns : List String) (values : List Sql) : Sql :=
  " (" ++ d.columnList columns ++ ") VALUES (" ++ Sql.intercalate ", " values ++ ")"

def exprRowSql (d : Dialect) (pairs : List (String × Expr (Build Sql))) : Build Sql := do
  if pairs.isEmpty then .fail (.invalidQuery .insertWithoutValues)
  else
    let values ← pairs.mapM fun (_, e) => e.sql d Scope.none
    return rowSql d (pairs.map (·.1)) values

def valueRowSql (d : Dialect) (pairs : List (String × Value)) : Build Sql := do
  if pairs.isEmpty then .fail (.invalidQuery .insertWithoutValues)
  else
    let values ← pairs.mapM fun (_, v) => liftPlaceholder v
    return rowSql d (pairs.map (·.1)) values

/-- The width of the longest row. -/
def longest (rows : List (List Value)) : Nat := (rows.map List.length).foldl max 0

/-- One row, filled up to the width. -/
def tupleText (d : Dialect) (width index : Nat) (row : List Value) : Except Fault String := do
  if width < row.length then throw (.rowTooLong index row.length width)
  let values ← row.mapM (inlineText d)
  return "(" ++ ", ".intercalate (values ++ List.replicate (width - row.length) "NULL") ++ ")"

/-- Rows from a given number on. -/
def tupleTexts (d : Dialect) (width : Nat) : Nat → List (List Value) → Except Fault (List String)
  | _, [] => .ok []
  | index, row :: rest => do
    let tuple ← tupleText d width index row
    return tuple :: (← tupleTexts d width (index + 1) rest)

/-- An optional column list. -/
def columnsText (d : Dialect) (fields : List String) : String :=
  if fields.isEmpty then "" else " (" ++ d.columnList fields ++ ")"

/-- The columns of the rows are those declared, else those known of the table; without either the
longest row counts. -/
def rowsText (d : Dialect) (attributes fields : List String) (rows : List (List Value)) :
    Except Fault String := do
  if rows.isEmpty then throw (.invalidQuery .insertWithoutRows)
  let fields := if fields.isEmpty then attributes else fields
  let width := if fields.isEmpty then longest rows else fields.length
  let tuples ← tupleTexts d width 0 rows
  return columnsText d fields ++ " VALUES " ++ ", ".intercalate tuples

def InsertSource.sql (d : Dialect) (attributes : List String) :
    InsertSource (Build Sql) → Build Sql
  | .exprs pairs => exprRowSql d pairs
  | .values pairs => valueRowSql d pairs
  | .rows fields lines => do
    let text ← Build.ofExcept (rowsText d attributes fields lines)
    return text
  | .select fields build => do return columnsText d fields ++ " " ++ (← build)

def Statement.insertSql (d : Dialect) (s : Statement (Build Sql)) : Build Sql := do
  let (table, name) ← Build.ofExcept (target "INSERT INTO" s.tables)
  match s.source with
  | none => .fail (.invalidQuery .insertWithoutValues)
  | some source =>
    return "INSERT INTO " ++ d.dotted name ++ (← source.sql d table.attributes)

end QueryCompiler
