import QueryCompiler.Query.Expr

/-!
# Statements

One record describes the four kinds of statements: a clause that a kind has no use for is kept but
not compiled. Like expressions, statements do not say what a nested query is.
-/
namespace QueryCompiler

inductive StatementKind where
  | select
  | insert
  | update
  | delete
  deriving DecidableEq, Repr

def StatementKind.word : StatementKind → String
  | select => "SELECT"
  | insert => "INSERT"
  | update => "UPDATE"
  | delete => "DELETE"

/-- What is known of a table: its columns and which of them identify a row. -/
structure TableMeta where
  name : String
  primaryKey : List String
  attributes : List String
  deriving DecidableEq, Repr

inductive TableSource (ν : Type) where
  | table (name : String)
  | subquery (q : ν)

structure TableRef (ν : Type) where
  source : TableSource ν
  label : Option String
  info : Option TableMeta

/-- How the rows of a join match: a condition, or pairs of a local and a foreign field. -/
inductive JoinCondition (ν : Type) where
  | expr (e : Expr ν)
  | fields (pairs : List (String × String))

structure Join (ν : Type) where
  table : TableRef ν
  kind : String
  condition : Option (JoinCondition ν)

structure Order (ν : Type) where
  expr : Expr ν
  direction : Field.Direction
  nulls : Option Field.Nulls

structure SelectItem (ν : Type) where
  expr : Expr ν
  label : Option String

inductive InsertSource (ν : Type) where
  | exprs (pairs : List (String × Expr ν))
  | values (pairs : List (String × Value))
  | rows (fields : List String) (rows : List (List Value))
  | select (fields : List String) (q : ν)

structure Statement (ν : Type) where
  kind : StatementKind
  distinct : Bool
  fields : List (SelectItem ν)
  tables : List (TableRef ν)
  joins : List (Join ν)
  filter : Option (Expr ν)
  groups : List (Expr ν)
  having : Option (Expr ν)
  orders : List (Order ν)
  limit : Option Nat
  offset : Option Nat
  source : Option (InsertSource ν)
  assignments : List (String × Expr ν)

variable {ν : Type}

namespace TableSource

def name? : TableSource ν → Option String
  | table name => some name
  | subquery _ => none

def subquery? : TableSource ν → Option ν
  | table _ => none
  | subquery q => some q

end TableSource

namespace TableRef

def named (name : String) : TableRef ν := ⟨.table name, none, none⟩

def ofMeta (info : TableMeta) : TableRef ν := ⟨.table info.name, none, some info⟩

def ofQuery (q : ν) : TableRef ν := ⟨.subquery q, none, none⟩

def withLabel (t : TableRef ν) (label : String) : TableRef ν := { t with label := some label }

/-- The name of a table; a subquery has none. -/
def name? (t : TableRef ν) : Option String := t.source.name?

/-- The known columns of a table. -/
def attributes (t : TableRef ν) : List String :=
  match t.info with
  | some info => info.attributes
  | none => []

end TableRef

def JoinCondition.exprs : JoinCondition ν → List (Expr ν)
  | expr e => [e]
  | fields _ => []

def Order.ofField (order : Field.Ordered) : Order ν :=
  ⟨.plainField order.name, order.direction, order.nulls⟩

namespace InsertSource

def exprsOf : InsertSource ν → List (Expr ν)
  | exprs pairs => pairs.map (·.2)
  | _ => []

def subquery? : InsertSource ν → Option ν
  | select _ q => some q
  | _ => none

end InsertSource

namespace Statement

def empty : Statement ν :=
  ⟨.select, false, [], [], [], none, [], none, [], none, none, none, []⟩

/-- All tables, those of FROM before those of the joins. -/
def allTables (s : Statement ν) : List (TableRef ν) := s.tables ++ s.joins.map Join.table

/-- All expressions, in the order of the clauses. -/
def exprs (s : Statement ν) : List (Expr ν) :=
  s.fields.map SelectItem.expr ++
    s.joins.flatMap (fun join => (join.condition.map JoinCondition.exprs).getD []) ++
    s.filter.toList ++ s.groups ++ s.having.toList ++ s.orders.map Order.expr ++
    s.assignments.map (·.2) ++ (s.source.map InsertSource.exprsOf).getD []

/-- The queries nested one level down: those of tables, that of an insertion, and those inside
expressions. -/
def subqueries (s : Statement ν) : List ν :=
  s.allTables.filterMap (·.source.subquery?) ++ (s.source.bind InsertSource.subquery?).toList ++
    s.exprs.flatMap Expr.subqueries

end Statement

end QueryCompiler
