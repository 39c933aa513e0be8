import QueryCompiler.Compile.Change
import QueryCompiler.Compile.Insert
import QueryCompiler.Query.Basic

/-!
# Compiling queries

The parameters of all nested queries are taken in first, so that generated names step around every
name in use. Then the statement is compiled, nested queries with the dialect of the outer one.
-/
namespace QueryCompiler

/-- SQL with named placeholders and the values that fill them. -/
structure Compiled where
  sql : String
  params : Bag
  deriving Repr

def Compiled.toJson (c : Compiled) : Json :=
  .object [("sql", .text c.sql), ("params", c.params.toJson)]

/-- A statement whose nested queries are compilation steps. -/
def Statement.sql (d : Dialect) (s : Statement (Build Sql)) : Build Sql :=
  match s.kind with
  | .select => s.selectSql d
  | .insert => s.insertSql d
  | .update => s.updateSql d
  | .delete => s.deleteSql d

namespace Query

/-- The compilation of a nested query: take in its parameters, then write its statement. Its own
dialect does not matter. -/
def nestedStep (d _own : Dialect) (bound : Bag) (s : Statement (Build Sql)) : Build Sql := do
  Build.merge bound
  s.sql d

/-- A statement with its nested queries turned into compilation steps. -/
def prepared (d : Dialect) (s : Statement Query) : Statement (Build Sql) :=
  foldStatement (nestedStep d) s

/-- Take in the parameters of the nested queries. -/
def reserve (bags : List Bag) : Build Unit := bags.forM Build.merge

def compileSteps (d : Dialect) (q : Query) : Build Sql := do
  reserve q.nestedBags
  (prepared d q.statement).sql d

/-- The text with its placeholders marked, and the values that fill them. -/
def written (d : Dialect) (q : Query) : Except Fault (Sql × Bag) :=
  match (compileSteps d q).run (Binder.ofBag q.bound) with
  | (.ok sql, binder) => .ok (sql, binder.bag)
  | (.error fault, _) => .error fault

/-- The values that are lifted when a query is compiled, with the names generated for them. -/
def lifts (d : Dialect) (q : Query) : List (String × Value) :=
  (compileSteps d q).lifts (Binder.ofBag q.bound)

def compileWith (d : Dialect) (q : Query) : Except Fault Compiled :=
  (written d q).map fun (sql, params) => ⟨sql.render, params⟩

/-- Compile a query with its own dialect. -/
def compile (q : Query) : Except Fault Compiled := q.compileWith q.dialect

end Query

end QueryCompiler
