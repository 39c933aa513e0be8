import QueryCompiler.Compile.Select

/-!
# Compiling updates and deletions

An update may read from further tables. A deletion names one table and must have a condition that
is more than an empty conjunction, so that rows are never all deleted by an omission.
-/
namespace QueryCompiler

def assignmentSql (d : Dialect) (scope : Scope) (assignment : String × Expr (Build Sql)) :
    Build Sql := do
  return d.quoteIdentifier assignment.1 ++ " = " ++ (← assignment.2.sql d scope)

namespace Statement

def updateSql (d : Dialect) (s : Statement (Build Sql)) : Build Sql := do
  let (table, _) ← Build.ofExcept (target "UPDATE" s.tables)
  if !s.joins.isEmpty then .fail (.invalidQuery .updateWithJoins)
  else if s.assignments.isEmpty then .fail (.invalidQuery .updateWithoutAssignments)
  else
    let labels ← Build.ofExcept (Labels.resolve s)
    let scope := labels.scope
    let target ← table.sql d labels.primary
    let assignments ← listClause " SET " (assignmentSql d scope) s.assignments
    let others ← listClause " FROM " (fun (t, label) => TableRef.sql d t label)
      ((s.tables.zip labels.tables).drop 1)
    let filter ← conditionClause d scope " WHERE " s.filter
    return "UPDATE " ++ target ++ assignments ++ others ++ filter

def deleteSql (d : Dialect) (s : Statement (Build Sql)) : Build Sql := do
  let (table, _) ← Build.ofExcept (target "DELETE FROM" s.tables)
  if 1 < s.tables.length || !s.joins.isEmpty then .fail (.invalidQuery .deleteFromSeveral)
  else
    match s.filter with
    | none => .fail (.invalidQuery .deleteWithoutFilter)
    | some filter =>
      if filter.isVacuous then .fail (.invalidQuery .deleteWithEmptyFilter)
      else
        let labels ← Build.ofExcept (Labels.resolve s)
        let target ← table.sql d labels.primary
        let condition ← filter.sql d labels.scope
        return "DELETE FROM " ++ target ++ " WHERE " ++ condition

end Statement

end QueryCompiler
