import QueryCompiler.Compile.Expr
import QueryCompiler.Compile.Label
import QueryCompiler.JoinType

/-!
# Compiling tables and joins

A table is introduced under its label, which is left out when it equals the table's name. A join
by pairs of fields compares them under the labels of the first and of the joined table.
-/
namespace QueryCompiler

def Labels.scope (labels : Labels) : Scope := ⟨labels.primary, labels.multi⟩

namespace TableRef

def sql (d : Dialect) (t : TableRef (Build Sql)) (label : Option String) : Build Sql :=
  match t.source with
  | .table name =>
    match label with
    | some label =>
      if label = name then pure (d.dotted name)
      else pure (d.dotted name ++ " " ++ d.labelName label)
    | none => pure (d.dotted name)
  | .subquery build => do
    let sql ← parenthesized build
    return sql ++ " " ++ d.labelName (label.getD "sub")

end TableRef

variable {ν : Type}

/-- The one named table that a statement writes to. -/
def target (verb : String) (tables : List (TableRef ν)) : Except Fault (TableRef ν × String) :=
  match tables with
  | [] => .error (.invalidQuery (.noTarget verb))
  | t :: _ =>
    match t.name? with
    | none => .error (.invalidQuery (.subqueryTarget verb))
    | some name => .ok (t, name)

/-- Put a label in front of a field that has none. -/
def qualify (label : Option String) (name : String) : String :=
  match label with
  | some label => if Text.hasChar '.' name then name else label ++ "." ++ name
  | none => name

def JoinCondition.toExpr (primary : Option String) (joined : String) :
    JoinCondition ν → Expr ν
  | expr e => e
  | fields pairs => .conj (pairs.map fun (here, there) =>
      .equal (.plainField (qualify primary here)) (.plainField (qualify (some joined) there)))

namespace Join

/-- How a fault names the joined table. -/
def shownLabel (join : Join ν) (label : Option String) : String :=
  ((label <|> join.table.name?)).getD "subquery"

def sql (d : Dialect) (scope : Scope) (join : Join (Build Sql)) (label : Option String) :
    Build Sql := do
  let kind ← Build.ofExcept (JoinType.parse join.kind)
  let table ← join.table.sql d label
  let joined := join.shownLabel label
  let start := " " ++ kind.display ++ " " ++ table
  match join.condition, kind.requiresOn with
  | none, true => .fail (.joinCondition joined .conditionMissing)
  | some _, false => .fail (.joinCondition joined .conditionUnwanted)
  | none, false => return start
  | some condition, true =>
    return start ++ " ON " ++ (← (condition.toExpr scope.label joined).sql d scope)

end Join

end QueryCompiler
