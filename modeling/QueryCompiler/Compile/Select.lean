import QueryCompiler.Compile.Table

/-!
# Compiling selections

The clauses follow one another in the order of SQL. A selection of everything lists the known
columns of the tables; a column whose name came before is renamed after its table, so that fetched
rows keep every value.
-/
namespace QueryCompiler

/-- A selection of nothing in particular, or of the star alone. -/
def isWildcard {ν : Type} : List (SelectItem ν) → Bool
  | [] => true
  | [⟨.field name none, none⟩] => Text.trim Text.isBlank name == "*"
  | _ => false

/-- A column behind the label of its table. -/
def behind (qualifier : Option String) (column : String) : String :=
  match qualifier with
  | some q => q ++ "." ++ column
  | none => column

/-- The columns of one table, and the column names seen so far. -/
def tableColumns (d : Dialect) (qualifier : Option String) (label : String) (seen : List String) :
    List String → List String × List String
  | [] => ([], seen)
  | known :: rest =>
    let column := behind qualifier (d.quoteIdentifier known)
    if seen.contains known then
      let (columns, seen) := tableColumns d qualifier label seen rest
      ((column ++ " AS " ++ d.quoteIdentifier (label ++ "_" ++ known)) :: columns, seen)
    else
      let (columns, seen) := tableColumns d qualifier label (known :: seen) rest
      (column :: columns, seen)

/-- The columns of all tables; a table of which nothing is known contributes its star. -/
def allColumns {ν : Type} (d : Dialect) (multi : Bool) (seen : List String) :
    List (TableRef ν × Option String) → List String
  | [] => []
  | (t, label) :: rest =>
    let label := (label <|> t.name?).getD "sub"
    let qualifier := if multi then some (d.quoteIdentifier label) else none
    if t.attributes.isEmpty then
      behind qualifier "*" :: allColumns d multi seen rest
    else
      let (columns, seen) := tableColumns d qualifier label seen t.attributes
      columns ++ allColumns d multi seen rest

def wildcardText {ν : Type} (d : Dialect) (s : Statement ν) (labels : Labels) : String :=
  if s.allTables.all fun t => t.attributes.isEmpty then "*"
  else ", ".intercalate
    (allColumns d labels.multi [] (s.allTables.zip (labels.tables ++ labels.joins)))

/-- A column and the name it is given: the one of the item, else the one of the expression, else
the one written behind the field. -/
def SelectItem.parts (d : Dialect) (scope : Scope) (item : SelectItem (Build Sql)) :
    Build (Sql × Option String) :=
  match item.expr with
  | .field name label => do
    let field ← Build.ofExcept (Field.parse name)
    return (d.fieldName scope field.name, item.label <|> label <|> field.label)
  | e => do return (← e.sql d scope, item.label)

def SelectItem.sql (d : Dialect) (scope : Scope) (item : SelectItem (Build Sql)) :
    Build Sql := do
  match ← item.parts d scope with
  | (sql, some label) => return sql ++ " AS " ++ d.labelName label
  | (sql, none) => return sql

/-- An order that says where nulls go, or sorts by a null key first where a dialect cannot. -/
def orderSql (d : Dialect) (key : Sql) (direction : Field.Direction) : Option Field.Nulls → Sql :=
  let target := key ++ match direction with
    | .ascending => ""
    | .descending => " DESC"
  fun
  | none => target
  | some .first =>
    if d.ordersNulls then target ++ " NULLS FIRST"
    else d.markedNullKey key ++ " DESC, " ++ target
  | some .last =>
    if d.ordersNulls then target ++ " NULLS LAST" else d.markedNullKey key ++ ", " ++ target

def Order.sql (d : Dialect) (scope : Scope) (order : Order (Build Sql)) : Build Sql := do
  let key ← order.expr.sql d scope
  return orderSql d key order.direction order.nulls

/-- A clause with a list of items; an empty list has no clause. -/
def listClause {α : Type} (word : String) (sql : α → Build Sql) (items : List α) : Build Sql := do
  if items.isEmpty then return ""
  else return word ++ Sql.intercalate ", " (← items.mapM sql)

def conditionClause (d : Dialect) (scope : Scope) (word : String) :
    Option (Expr (Build Sql)) → Build Sql
  | none => pure ""
  | some e => do return word ++ (← e.sql d scope)

namespace Statement

def selectionSql (d : Dialect) (s : Statement (Build Sql)) (labels : Labels) : Build Sql :=
  if isWildcard s.fields then pure (wildcardText d s labels)
  else listClause "" (SelectItem.sql d labels.scope) s.fields

def selectSql (d : Dialect) (s : Statement (Build Sql)) : Build Sql := do
  let labels ← Build.ofExcept (Labels.resolve s)
  let scope := labels.scope
  let selection ← selectionSql d s labels
  let tables ← listClause " FROM " (fun (t, label) => TableRef.sql d t label)
    (s.tables.zip labels.tables)
  let joins ← (s.joins.zip labels.joins).mapM fun (join, label) => join.sql d scope label
  let filter ← conditionClause d scope " WHERE " s.filter
  let groups ← listClause " GROUP BY " (Expr.sql d scope) s.groups
  let having ← conditionClause d scope " HAVING " s.having
  let orders ← listClause " ORDER BY " (Order.sql d scope) s.orders
  return (if s.distinct then "SELECT DISTINCT " else "SELECT ") ++ selection ++ tables ++
    Sql.concat joins ++ filter ++ groups ++ having ++ orders ++ d.limitOffset s.limit s.offset

end Statement

end QueryCompiler
