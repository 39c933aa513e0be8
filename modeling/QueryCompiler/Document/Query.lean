import QueryCompiler.Document.Basic

/-!
# Queries in documents

The members of a document are the clauses of its statement. A member that the kind of statement has
no use for is passed over, but a name that no kind knows is refused.
-/
namespace QueryCompiler.Document

def keys : List String :=
  ["type", "distinct", "fields", "from", "joins", "where", "group", "having", "order", "limit",
    "offset", "values", "rows", "select", "set", "params"]

def selectStatement (members : Members) : Except Fault (Statement Query) := do
  let fields ← (members.items "fields").mapM (·.roles.item)
  let tables ← (members.items "from").mapM (·.roles.table)
  let joins ← (members.items "joins").mapM (·.roles.join)
  let groups ← (members.items "group").mapM (·.roles.expr)
  let having ← members.optional "having" (·.roles.expr)
  let orders ← (members.items "order").mapM (·.roles.order)
  let limit ← members.optional "limit" fun n => count "limit" n.source
  let offset ← members.optional "offset" fun n => count "offset" n.source
  return { Statement.empty with
    distinct := members.isTrue "distinct"
    fields, tables, joins, groups, having, orders, limit, offset }

/-- The one table that a statement writes to. -/
def singleTable (members : Members) : Except Fault (TableRef Query) :=
  match members.items "from" with
  | [n] => n.roles.table
  | _ => fail .notOneTable

/-- A column of an inserted row: scalars are data, anything else is an expression. -/
def insertedExpr (n : Node) : Except Fault (Expr Query) :=
  match Value.ofJson? n.source with
  | some v => .ok (.literal v)
  | none => n.roles.expr

/-- A single row. If all its columns are scalars they become parameters. -/
def insertedRow (values : Members) : Except Fault (InsertSource Query) :=
  if values.all fun (_, n) => isScalar n.source then
    .values <$> values.mapM fun (name, n) => do return (name, ← scalar n.source)
  else .exprs <$> values.mapM fun (name, n) => do return (name, ← insertedExpr n)

def insertedRows (columns : List String) (rows : Node) : Except Fault (InsertSource Query) :=
  .rows columns <$> rows.items.mapM fun row => row.items.mapM fun n => scalar n.source

def insertSource (members : Members) (columns : List String) :
    Except Fault (Option (InsertSource Query)) := do
  match members.get? "values", members.get? "rows", members.get? "select" with
  | some values, _, _ => return some (← insertedRow (← membersOf "values" values))
  | none, some rows, _ => return some (← insertedRows columns rows)
  | none, none, some select => return some (.select columns (← select.roles.query))
  | none, none, none => return none

def insertStatement (members : Members) : Except Fault (Statement Query) := do
  let table ← singleTable members
  let columns ← members.texts "fields"
  let source ← insertSource members columns
  return { Statement.empty with kind := .insert, tables := [table], source }

/-- The expressions of an object, name by name. -/
def namedExprs (members : Members) : Except Fault (List (String × Expr Query)) :=
  members.mapM fun (name, n) => do return (name, ← n.roles.expr)

def updateStatement (members : Members) : Except Fault (Statement Query) := do
  if (members.items "from").isEmpty then fail .updateWithoutTable
  let tables ← (members.items "from").mapM (·.roles.table)
  let assignments ← members.optional "set" fun n => do namedExprs (← membersOf "set" n)
  return { Statement.empty with kind := .update, tables, assignments := assignments.getD [] }

def deleteStatement (members : Members) : Except Fault (Statement Query) := do
  let table ← singleTable members
  return { Statement.empty with kind := .delete, tables := [table] }

/-- The clauses that belong to the kind of the statement. -/
def statementOf (members : Members) : Except Fault (Statement Query) := do
  match ((← members.optionalText "type").getD "select").toLower with
  | "select" => selectStatement members
  | "insert" => insertStatement members
  | "update" => updateStatement members
  | "delete" => deleteStatement members
  | other => fail (.unknownStatement other)

def boundValues (params : Members) : Except Fault Bag := do
  return Bag.ofList (← params.mapM fun (name, n) => do return (name, ← scalar n.source))

def queryOf (d : Dialect) (members : Members) : Except Fault Query := do
  match members.find? fun (name, _) => !keys.contains name with
  | some (name, _) => fail (.unknownKey name)
  | none => pure ()
  let statement ← statementOf members
  let filter ← members.optional "where" (·.roles.expr)
  let bound ← members.optional "params" fun n => do boundValues (← membersOf "params" n)
  return .mk d (bound.getD Bag.empty) { statement with filter }

end QueryCompiler.Document
