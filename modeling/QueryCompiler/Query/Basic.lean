import QueryCompiler.Dialect.Basic
import QueryCompiler.Param.Bag
import QueryCompiler.Query.Statement

/-!
# Queries

A query is a statement whose nested queries are queries again, with the values bound to it and the
dialect in which it is written when it stands alone. `Query.fold` computes an answer for a query
from the answers for the queries nested in it.
-/
namespace QueryCompiler

inductive Query where
  | mk (dialect : Dialect) (bound : Bag) (statement : Statement Query)

namespace Query

def dialect : Query → Dialect
  | mk dialect _ _ => dialect

def bound : Query → Bag
  | mk _ bound _ => bound

def statement : Query → Statement Query
  | mk _ _ statement => statement

/-- An empty selection. -/
def empty (dialect : Dialect) : Query := mk dialect Bag.empty Statement.empty

def withDialect (q : Query) (dialect : Dialect) : Query := mk dialect q.bound q.statement

def bind (q : Query) (name : String) (value : Value) : Query :=
  mk q.dialect (q.bound.insert name value) q.statement

def edit (q : Query) (change : Statement Query → Statement Query) : Query :=
  mk q.dialect q.bound (change q.statement)

/-- What a fold makes of a query whose nested queries have their answers. -/
abbrev Algebra (α : Type) := Dialect → Bag → Statement α → α

variable {α : Type}

mutual
/-- Combine what a query consists of, every nested query in its statement being replaced by its own
answer. -/
def fold (f : Algebra α) : Query → α
  | mk dialect bound statement => f dialect bound (foldStatement f statement)

/-- A statement with the answers of its nested queries. -/
def foldStatement (f : Algebra α) : Statement Query → Statement α
  | ⟨kind, distinct, fields, tables, joins, filter, groups, having, orders, limit, offset, source,
      assignments⟩ =>
    ⟨kind, distinct, foldItems f fields, foldTables f tables, foldJoins f joins,
      foldExpr? f filter, foldExprs f groups, foldExpr? f having, foldOrders f orders, limit, offset,
      foldSource? f source, foldPairs f assignments⟩

def foldItems (f : Algebra α) : List (SelectItem Query) → List (SelectItem α)
  | [] => []
  | ⟨e, label⟩ :: rest => ⟨foldExpr f e, label⟩ :: foldItems f rest

def foldTables (f : Algebra α) : List (TableRef Query) → List (TableRef α)
  | [] => []
  | t :: rest => foldTable f t :: foldTables f rest

def foldTable (f : Algebra α) : TableRef Query → TableRef α
  | ⟨.table name, label, info⟩ => ⟨.table name, label, info⟩
  | ⟨.subquery q, label, info⟩ => ⟨.subquery (fold f q), label, info⟩

def foldJoins (f : Algebra α) : List (Join Query) → List (Join α)
  | [] => []
  | ⟨t, kind, condition⟩ :: rest =>
    ⟨foldTable f t, kind, foldCondition? f condition⟩ :: foldJoins f rest

def foldCondition? (f : Algebra α) : Option (JoinCondition Query) → Option (JoinCondition α)
  | none => none
  | some (.expr e) => some (.expr (foldExpr f e))
  | some (.fields pairs) => some (.fields pairs)

def foldExpr? (f : Algebra α) : Option (Expr Query) → Option (Expr α)
  | none => none
  | some e => some (foldExpr f e)

def foldOrders (f : Algebra α) : List (Order Query) → List (Order α)
  | [] => []
  | ⟨e, direction, nulls⟩ :: rest => ⟨foldExpr f e, direction, nulls⟩ :: foldOrders f rest

def foldSource? (f : Algebra α) : Option (InsertSource Query) → Option (InsertSource α)
  | none => none
  | some (.exprs pairs) => some (.exprs (foldPairs f pairs))
  | some (.values pairs) => some (.values pairs)
  | some (.rows fields rows) => some (.rows fields rows)
  | some (.select fields q) => some (.select fields (fold f q))

def foldPairs (f : Algebra α) : List (String × Expr Query) → List (String × Expr α)
  | [] => []
  | (name, e) :: rest => (name, foldExpr f e) :: foldPairs f rest

def foldExprs (f : Algebra α) : List (Expr Query) → List (Expr α)
  | [] => []
  | e :: rest => foldExpr f e :: foldExprs f rest

def foldExpr (f : Algebra α) : Expr Query → Expr α
  | .literal v => .literal v
  | .field name label => .field name label
  | .param name => .param name
  | .op name operands => .op name (foldExprs f operands)
  | .call name args => .call name (foldExprs f args)
  | .subquery q => .subquery (fold f q)
  | .shorthand pairs => .shorthand (foldShorthand f pairs)

def foldShorthand (f : Algebra α) :
    List (String × FieldValue Query) → List (String × FieldValue α)
  | [] => []
  | (name, .null) :: rest => (name, .null) :: foldShorthand f rest
  | (name, .value v) :: rest => (name, .value v) :: foldShorthand f rest
  | (name, .list items) :: rest => (name, .list items) :: foldShorthand f rest
  | (name, .subquery q) :: rest => (name, .subquery (fold f q)) :: foldShorthand f rest
end

/-- The queries nested one level down. -/
def subqueries (q : Query) : List Query := q.statement.subqueries

/-- The bags of a query and of all queries nested in it, each before those nested inside it. -/
def bags (q : Query) : List Bag :=
  q.fold fun _ bound statement => bound :: statement.subqueries.flatten

/-- The bags of the queries nested in a query, at any depth. -/
def nestedBags (q : Query) : List Bag := q.subqueries.flatMap bags

end Query

end QueryCompiler
